import Tk1Bsp.Can.Settings
import Tk1Bsp.Spi.Atomicity

/-!
# Traffic leaves the settings alone, whatever the bus does

That the operations of the threads spare the settings of the controller does not depend on what the
threads have read, so it makes no difference if a transfer is refused and a thread goes on with
bytes that nobody has sent.
-/

namespace Tk1Bsp
namespace Spi

open Can Transition

/-- The threads spare the settings, which are those of `c₀`. -/
structure Sparing (c₀ : Chip) (can : Can.System) : Prop where
  spares : can.Every Op.Spares
  settings : c₀.SameSettings can.driver.chip

theorem sparing_of_atRest {can : Can.System} (h : can.AtRest) : Sparing can.driver.chip can where
  spares := Can.System.every_of_atRest h
  settings := .refl _

namespace Sparing

variable {c₀ : Chip} {can can' : Can.System}

theorem moves (h : Sparing c₀ can) {a : Can.Act} (hmoves : can.Moves a can') :
    Sparing c₀ can' := by
  refine ⟨h.spares.moves spares_body spares_irqHandler hmoves, h.settings.trans ?_⟩
  cases hmoves with
  | call c hidle => exact .refl _
  | @reply c r hprog => cases r <;> exact .refl _
  | client hprog hexec => exact (h.spares.1 _ _ hprog).1.exec hexec
  | irq frame hrest => exact .refl _
  | handler hprog hexec =>
      have hcall : (Prog.call _ _ : Can.Io Unit).Every Op.Spares := hprog ▸ h.spares.2
      exact hcall.1.exec hexec
  | chip hevent => exact Chip.sameSettings_event hevent

/-- A step of the component on a bus that may lose commands. -/
theorem lossy (h : Sparing c₀ can) {a : Option Can.Act} {u : Unit}
    (hstep : System.StepLossy can a u can') : Sparing c₀ can' := by
  cases a with
  | some a => exact h.moves (Can.System.moves_of_step hstep)
  | none =>
      obtain ⟨t, txbuf, rcount, reply, -, -, rfl⟩ := hstep
      refine ⟨every_answer h.spares reply t, ?_⟩
      cases t <;> exact h.settings

end Sparing

/-! ## Lengths -/

theorem fit_spi {txbuf reply : List (BitVec 8)} {n : ℕ}
    (h : txbuf = [0x90] → (lengthOf reply).toNat ≤ 8) : Fit (.spi txbuf n) reply := by
  unfold Fit
  split
  · simp_all
  · simp_all
  · trivial

theorem each_proceed {p : Can.Io Unit} {reply : List (BitVec 8)} {Q : Unit → Prop}
    (h : p.Each Fit Heeds Q)
    (hfit : ∀ n k, p = .call (.spi [0x90] n) k → (lengthOf reply).toNat ≤ 8) :
    (proceed reply p).Each Fit Heeds Q := by
  unfold proceed
  split
  · rename_i txbuf n k
    exact h.2 reply (fit_spi fun htxbuf => hfit n k (by rw [htxbuf]))
  · split
    · exact h.2 () trivial
    · exact h
  · exact h

/-- A thread that goes on with a reply of a length that fits. -/
theorem defined_answer {can : Can.System} (h : can.Defined) {reply : List (BitVec 8)} {t : Tid}
    (hfit : t = .handler → ∀ n k, can.handler = .call (.spi [0x90] n) k →
      (lengthOf reply).toNat ≤ 8) : (answer can reply t).Defined := by
  cases t with
  | client =>
      refine ⟨fun c p hp => ?_, h.handler⟩
      obtain ⟨⟨c', p'⟩, hclient, hcp⟩ := Option.map_eq_some_iff.1 hp
      obtain ⟨rfl, rfl⟩ := Prod.mk.inj hcp
      obtain ⟨hfits, hevery⟩ := h.client c' p' hclient
      exact ⟨hfits, every_proceed reply hevery⟩
  | handler => exact ⟨h.client, each_proceed h.handler (hfit rfl)⟩

namespace System

/-- The reply with which a command returns at the next step. -/
def returns (s : System) (t : Tid) : Option (List (BitVec 8)) :=
  match s.cmd t with
  | some (.call o k) =>
      (execCmd o s).bind fun rs =>
        match k rs.1 with
        | .ret reply => some reply
        | .call _ _ => none
  | _ => none

/-- The condition on a step: the frame that a call is given is short, as is the frame that the handler
takes from the TX queue, and the message that it has read. -/
def short (s : System) : Act → Bool
  | .call c => decide c.Fits
  | .thread .handler =>
      match s.can.handler with
      | .call (.spi [0x90] _) _ =>
          (s.returns .handler).all fun reply => decide ((lengthOf reply).toNat ≤ 8)
      | .call (.mqRemove .tx) _ => decide (mqRemoveMsg s.can.driver .tx).1.Short
      | _ => true
  | _ => true

/-- A step that meets the condition. -/
def StepShort (s : System) (a : Act) (u : Unit) (s' : System) : Prop :=
  s.Step a u s' ∧ s.short a = true

variable {s s' : System}

theorem can_of_execCmd {o : CmdOp} {r : CmdAns o} (h : execCmd o s = some (r, s')) :
    s'.can = s.can := by
  cases o with
  | spiLockUnlock => cases h; rfl
  | spiLockLock =>
      obtain ⟨-, hs⟩ := Option.ite_none_left_eq_some.1 h
      cases hs
      rfl
  | setTxbuf | getRxbuf =>
      obtain ⟨-, hs⟩ := Option.ite_none_right_eq_some.1 h
      cases hs
      rfl
  | spiTransfer | spiTransferReturn =>
      simp only [execCmd] at h
      split at h <;> cases h
      rfl

theorem defined_thread (h : s.can.Defined) {t : Tid} (hshort : s.short (.thread t) = true)
    (hstep : s.stepThread t = some s') : s'.can.Defined := by
  unfold stepThread at hstep
  split at hstep
  · split at hstep
    · cases hstep
      exact h
    · rename_i hcommand
      obtain ⟨can, hcan, rfl⟩ := Option.map_eq_some_iff.1 hstep
      refine h.step ?_ hcan
      cases t with
      | client => rfl
      | handler =>
          -- the next operation is none on the bus
          simp only [short] at hshort
          show nextShort s.can.driver s.can.handler = true
          split at hshort
          · rename_i hprog
            simp [commandOf, hprog, command] at hcommand
          · rename_i hprog
            rw [hprog]
            exact hshort
          · rename_i hspi hremove
            unfold nextShort Op.short
            split
            · rfl
            · rename_i o k hprog
              split
              · exact absurd hprog (hspi _ _)
              · exact absurd hprog (hremove _)
              · rfl
  · cases hstep
  · rename_i o k hcmd
    obtain ⟨⟨r, s₁⟩, hexec, rfl⟩ := Option.map_eq_some_iff.1 hstep
    have hcan := can_of_execCmd hexec
    cases hk : k r with
    | call o' k' =>
        simp only [resume, hcan]
        exact h
    | ret reply =>
        simp only [resume, hcan]
        refine defined_answer h ?_
        rintro rfl n k' hprog
        have hreturns : s.returns .handler = some reply := by
          simp only [returns, hcmd, hexec, Option.bind_some, hk]
        simp only [short, hprog, hreturns, Option.all_some] at hshort
        exact of_decide_eq_true hshort

/-- No step of the two components leads out of an array. -/
theorem defined_step (h : s.can.Defined) {a : Act} {u : Unit} (hstep : s.StepShort a u s') :
    s'.can.Defined := by
  obtain ⟨hstep, hshort⟩ := hstep
  cases a with
  | call c =>
      obtain ⟨can, hcan, rfl⟩ := Option.map_eq_some_iff.1 hstep
      exact @Can.System.Defined.step _ _ (.call c) h hshort hcan
  | irq frame =>
      obtain ⟨can, hcan, rfl⟩ := Option.map_eq_some_iff.1 hstep
      exact h.step rfl hcan
  | chip e =>
      obtain ⟨can, hcan, rfl⟩ := Option.map_eq_some_iff.1 hstep
      exact h.step rfl hcan
  | thread t => exact defined_thread h hshort hstep
  | server code =>
      simp only [Step, step, stepServer] at hstep
      split at hstep
      · split at hstep <;> cases hstep
        exact h
      · cases hstep
        exact h
      · obtain ⟨rd, -, rfl⟩ := Option.map_eq_some_iff.1 hstep
        exact h
  | interrupt code =>
      simp only [Step, step, stepInterrupt] at hstep
      split at hstep
      · cases hstep
        exact h
      · obtain ⟨rd, -, rfl⟩ := Option.map_eq_some_iff.1 hstep
        exact h
  | exchange echo =>
      simp only [Step, step, stepExchange] at hstep
      split at hstep <;> cases hstep
      exact ⟨h.client, h.handler⟩

/-! ## Runs -/

/-- Whatever the bus driver answers, and in whatever order the steps come, sending, receiving and
the interrupt handler leave the filters, the masks, the bit timing, the enabled interrupts and the
receive modes as they were, and access nothing outside of an array, as long as the lengths fit. -/
theorem settings_kept {can₀ : Can.System} (hrest : can₀.AtRest)
    (h : Reachable StepShort (Starts can₀) s) :
    can₀.driver.chip.SameSettings s.can.driver.chip ∧ ¬ s.can.Astray := by
  obtain ⟨g, hinv, hcan⟩ := shown_or_lost hrest (h.mono fun _ _ _ _ hstep => hstep.1)
  have hsparing : Sparing can₀.driver.chip (g.shown s.can) := by
    refine hcan.invariant (fun can hcan => ?_) fun can a _ can' h hstep => h.lossy hstep
    subst hcan
    exact sparing_of_atRest hrest
  have hdefined : s.can.Defined := by
    refine h.invariant (fun s₀ hs => ?_) fun s a _ s' h hstep => defined_step h hstep
    obtain ⟨-, -, -, -, -, -, rfl⟩ := hs
    exact Can.System.defined_of_atRest hrest
  exact ⟨(shows_shown hinv).driver ▸ hsparing.settings, hdefined.not_astray⟩

theorem settings_kept_loseFlags :
    ∃ s, (askFlags ++ loseFlags).foldlM (fun s a => if s.short a then s.step a else none) first =
        some s ∧ s.spiLock = false ∧
      first.can.driver.chip.SameSettings s.can.driver.chip ∧ ¬ s.can.Astray := by
  have hlock : ((askFlags ++ loseFlags).foldlM
      (fun s a => if short s a then step s a else none) first).map (fun s => s.spiLock) =
        some false := rfl
  obtain ⟨s, hrun, hlock⟩ := Option.map_eq_some_iff.1 hlock
  have hreach : Reachable StepShort (Starts first.can) s := by
    refine Reachable.foldlM_of (fun s a s' hstep => ?_) hrun (.of_init (starts_early first.can))
    obtain ⟨hshort, hstep⟩ := Option.ite_none_right_eq_some.1 hstep
    exact ⟨(), hstep, hshort⟩
  exact ⟨s, hrun, hlock, settings_kept ⟨rfl, rfl⟩ hreach⟩

end System

end Spi
end Tk1Bsp
