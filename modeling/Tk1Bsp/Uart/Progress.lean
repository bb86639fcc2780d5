import Tk1Bsp.Uart.Completion
import Tk1Bsp.Uart.StateMutex

/-!
# Calls can be brought to their ends

A call waits twice: for the state mutex, which it shares with the interrupt handler, and for the
release of its line, which comes from that handler.  The driver is careful about the order of these
locks, so that the two threads do not wait for each other.  As long as no initialization fails, and
an interrupt comes only from a device that has been initialized, nothing that has happened can keep
a call from returning: there are always steps of the threads that are there which bring it to its
end (`System.calls_can_end`).
-/

namespace Tk1Bsp
namespace Uart

open Transition

/-! ## What the threads do with the state mutex and the device -/

/-- An operation on the state mutex of a UART or on its device, or a wait for the release of one of
its lines. -/
def Op.Special (u : Fin 3) : Op → Prop
  | .stateLock u' | .stateUnlock u' | .getPinst u' | .cdevInit u' | .syncLock u' _ => u' = u
  | _ => False

/-- An operation that may have to wait, or fail. -/
def Op.Waits : Op → Prop
  | .stateLock _ | .syncLock _ _ | .cdevHandleIrq _ | .assert _ => True
  | _ => False

/-- Where a call is: before it takes the state mutex, inside, inside with a device, after it has
given the mutex back, or on its way out after an initialization that failed. -/
inductive Spot
  | outside
  | inside
  | ready
  | handed
  | failed

/-- The call has the state mutex. -/
def Spot.holds : Spot → Bool
  | outside | handed => false
  | inside | ready | failed => true

/-- What a call may do. -/
inductive CallRule (u : Fin 3) (c : Channel) : Spot → (o : Op) → Ans o → Spot → Prop
  | plain {g : Spot} {o : Op} {r : Ans o} (hspecial : ¬ o.Special u) (hwaits : ¬ o.Waits) :
      CallRule u c g o r g
  | lock : CallRule u c .outside (.stateLock u) () .inside
  | look (found : Bool) :
      CallRule u c .inside (.getPinst u) found (if found then .ready else .inside)
  | init (found : Bool) :
      CallRule u c .inside (.cdevInit u) found (if found then .ready else .failed)
  | unlock : CallRule u c .ready (.stateUnlock u) () .handed
  | sync : CallRule u c .handed (.syncLock u c) () .handed

/-- Where a handler is: at its start, after it has looked for the device, outside the state mutex,
or inside. -/
inductive Post
  | start
  | seen (pinst : Bool)
  | outside
  | inside

/-- The handler has the state mutex. -/
def Post.holds : Post → Bool
  | inside => true
  | _ => false

/-- What a handler may do. -/
inductive IrqRule (u : Fin 3) : Post → (o : Op) → Ans o → Post → Prop
  | plain {w : Post} {o : Op} {r : Ans o} (hspecial : ¬ o.Special u) (hwaits : ¬ o.Waits) :
      IrqRule u w o r w
  | look (pinst : Bool) : IrqRule u .start (.getPinst u) pinst (.seen pinst)
  | assert (pinst : Bool) : IrqRule u (.seen pinst) (.assert pinst) () .outside
  | lock : IrqRule u .outside (.stateLock u) () .inside
  | handle (l : Completions) : IrqRule u .inside (.cdevHandleIrq u) l .inside
  | unlock : IrqRule u .inside (.stateUnlock u) () .outside

section Programs

variable {u u' : Fin 3} {c : Channel}

theorem follows_initDevice_call (u : Fin 3) (c : Channel) :
    (initDevice u).Follows (CallRule u c) .inside
      fun found g => g = if found then .ready else .failed := by
  intro pinst
  refine ⟨_, .look pinst, ?_⟩
  cases pinst with
  | true => exact rfl
  | false =>
      exact fun _ => ⟨.inside, .plain not_false not_false, fun found => ⟨_, .init found, rfl⟩⟩

theorem follows_transfer_call (u : Fin 3) (c : Channel) (nbytes : ℤ) :
    (tk1UartTransfer c u nbytes).Follows (CallRule u c) .outside
      fun _ g => g.holds = true → g = .failed := by
  have hout : Spot.outside.holds = true → Spot.outside = .failed := nofun
  have hhanded : Spot.handed.holds = true → Spot.handed = .failed := nofun
  simp only [tk1UartTransfer, op, Prog.bind_eq, Prog.perform_bind]
  refine fun buff => ⟨.outside, .plain not_false not_false, ?_⟩
  cases buff with
  | false => exact hout
  | true =>
      refine fun _ => ⟨.inside, .lock, Prog.Follows.bind ?_⟩
      refine (follows_initDevice_call u c).mono fun found g hg => ?_
      subst hg
      cases found with
      | false => exact fun _ => rfl
      | true =>
          refine fun ret => ⟨.ready, .plain not_false not_false, fun _ => ⟨.handed, .unlock, ?_⟩⟩
          beta_reduce
          split
          · exact hhanded
          · exact fun _ => ⟨.handed, .sync, fun _ => ⟨.handed, .plain not_false not_false, hhanded⟩⟩

/-- What concerns another UART is not special for this one. -/
theorem Op.About.not_special {o : Op} {C : Channel → Prop} (h : o.About u' C) (hne : u' ≠ u) :
    ¬ o.Special u := by
  intro hspecial
  cases o with
  | stateLock | stateUnlock | getPinst | cdevInit => exact hne (h.symm.trans hspecial)
  | syncLock => exact hne (h.1.symm.trans hspecial)
  | _ => exact hspecial

theorem follows_runCallbacks_irq (w : Post) (es : List Completion) :
    (runCallbacks u es).Follows (IrqRule u) w fun _ w' => w' = w := by
  induction es with
  | nil => exact rfl
  | cons e es ih => exact fun _ => ⟨w, .plain not_false not_false, ih⟩

theorem follows_releaseCaller_irq (w : Post) (c : Channel) :
    (releaseCaller u c).Follows (IrqRule u) w fun _ w' => w' = w := by
  refine fun release => ⟨w, .plain not_false not_false, ?_⟩
  cases release with
  | false => exact rfl
  | true =>
      exact fun _ => ⟨w, .plain not_false not_false, fun _ => ⟨w, .plain not_false not_false, rfl⟩⟩

theorem follows_irqHandle_irq (u : Fin 3) :
    (tk1UartIrqHandle u).Follows (IrqRule u) .start fun _ w => w = .outside := by
  simp only [tk1UartIrqHandle, tk1UartIrqHandler, op, Prog.bind_eq, Prog.perform_bind]
  refine Prog.Follows.seq ?_ fun _ _ => ⟨.outside, .plain not_false not_false, rfl⟩
  refine fun pinst => ⟨.seen pinst, .look pinst, fun _ => ⟨.outside, .assert pinst, fun _ =>
    ⟨.inside, .lock, fun l => ⟨.inside, .handle l, ?_⟩⟩⟩⟩
  refine (follows_runCallbacks_irq .inside l.list).seq fun _ _ => ⟨.outside, .unlock, ?_⟩
  exact (follows_releaseCaller_irq .outside .write).seq fun _ =>
    follows_releaseCaller_irq .outside .read

end Programs

/-! ## One operation -/

section Steps

variable {u : Fin 3} {d d' : Cdevs} {x : Outcome} {o : Op} {r : Ans o}

theorem shared_exec (hexec : exec x o d = some (r, d')) (ho : ¬ o.Special u) :
    d'.stateMtx u = d.stateMtx u ∧ d'.pinst u = d.pinst u := by
  cases o with
  | stateLock u' =>
      simp only [exec] at hexec
      split at hexec <;> cases hexec
      exact ⟨Function.update_of_ne (Ne.symm ho) _ _, rfl⟩
  | stateUnlock u' =>
      cases hexec
      exact ⟨Function.update_of_ne (Ne.symm ho) _ _, rfl⟩
  | cdevInit u' =>
      cases hexec
      exact ⟨rfl, Function.update_of_ne (Ne.symm ho) _ _⟩
  | cdevStart | syncLock | cdevHandleIrq | assert =>
      simp only [exec] at hexec
      split at hexec <;> cases hexec
      all_goals exact ⟨rfl, rfl⟩
  | _ =>
      cases hexec
      exact ⟨rfl, rfl⟩

theorem exec_of_not_waits (x : Outcome) (h : ¬ o.Waits) (d : Cdevs) : (exec x o d).isSome := by
  cases o with
  | stateLock | syncLock | cdevHandleIrq | assert => exact absurd trivial h
  | cdevStart =>
      simp only [exec]
      split <;> rfl
  | _ => rfl

/-- The state mutex and the device of a UART, with where its call and its handler are. -/
structure Keys (d : Cdevs) (u : Fin 3) (g : Spot) (w : Post) : Prop where
  held : d.stateMtx u = (g.holds || w.holds)
  apart : g.holds = false ∨ w.holds = false
  pinst : g = .ready ∨ g = .handed ∨ w = .start ∨ w = .seen true → d.pinst u = true
  seen : w ≠ .seen false
  found : g ≠ .failed

variable {c : Channel} {g g' : Spot} {w w' : Post}

theorem Keys.congr (h : Keys d u g w)
    (hshared : d'.stateMtx u = d.stateMtx u ∧ d'.pinst u = d.pinst u) : Keys d' u g w :=
  ⟨hshared.1.trans h.held, h.apart, fun hg => hshared.2.trans (h.pinst hg), h.seen, h.found⟩

/-- One operation of a call. -/
theorem Keys.call (h : Keys d u g w) (hrule : CallRule u c g o r g')
    (hexec : exec x o d = some (r, d')) (hx : o = .cdevInit u → x.init = true) :
    Keys d' u g' w := by
  obtain ⟨held, apart, pinst, seen, found⟩ := h
  cases hrule with
  | plain hspecial _ =>
      exact Keys.congr ⟨held, apart, pinst, seen, found⟩ (shared_exec hexec hspecial)
  | lock =>
      simp only [exec] at hexec
      split at hexec
      · cases hexec
      · rename_i hfree
        cases hexec
        have hw : w.holds = false := by simpa [held, Spot.holds] using hfree
        refine ⟨?_, .inr hw, fun hg => pinst ?_, seen, (by rintro ⟨⟩)⟩
        · exact (Function.update_self ..).trans (by simp [Spot.holds])
        · rcases hg with hg | hg | hg
          · cases hg
          · cases hg
          · exact .inr (.inr hg)
  | look found' =>
      obtain ⟨rfl, rfl⟩ := Prod.mk.inj (Option.some.inj hexec)
      cases hpinst : d.pinst u with
      | true => exact ⟨held, apart, fun _ => hpinst, seen, (by rintro ⟨⟩)⟩
      | false => exact ⟨held, apart, pinst, seen, found⟩
  | init found' =>
      cases hexec
      rw [hx rfl]
      exact ⟨held, apart, fun _ => Function.update_self .., seen, (by rintro ⟨⟩)⟩
  | unlock =>
      cases hexec
      have hw : w.holds = false := apart.resolve_left (by rintro ⟨⟩)
      refine ⟨?_, .inl rfl, fun _ => pinst (.inl rfl), seen, (by rintro ⟨⟩)⟩
      exact (Function.update_self ..).trans (by simp [Spot.holds, hw])
  | sync =>
      simp only [exec] at hexec
      split at hexec <;> cases hexec
      exact ⟨held, apart, pinst, seen, found⟩

/-- One operation of a handler. -/
theorem Keys.irq (h : Keys d u g w) (hrule : IrqRule u w o r w')
    (hexec : exec x o d = some (r, d')) : Keys d' u g w' := by
  obtain ⟨held, apart, pinst, seen, found⟩ := h
  have hg : ∀ {v : Post}, v = .outside ∨ v = .inside →
      g = .ready ∨ g = .handed ∨ v = .start ∨ v = .seen true → d.pinst u = true := by
    rintro v hv (hg | hg | rfl | rfl)
    · exact pinst (.inl hg)
    · exact pinst (.inr (.inl hg))
    all_goals rcases hv with hv | hv <;> cases hv
  cases hrule with
  | plain hspecial _ =>
      exact Keys.congr ⟨held, apart, pinst, seen, found⟩ (shared_exec hexec hspecial)
  | look found' =>
      obtain ⟨rfl, rfl⟩ := Prod.mk.inj (Option.some.inj hexec)
      have hpinst := pinst (.inr (.inr (.inl rfl)))
      rw [hpinst]
      exact ⟨held, apart, fun _ => hpinst, (by rintro ⟨⟩), found⟩
  | assert pinst' =>
      simp only [exec] at hexec
      split at hexec <;> cases hexec
      exact ⟨held, apart, hg (.inl rfl), (by rintro ⟨⟩), found⟩
  | lock =>
      simp only [exec] at hexec
      split at hexec
      · cases hexec
      · rename_i hfree
        cases hexec
        have hg' : g.holds = false := by simpa [held, Post.holds] using hfree
        refine ⟨?_, .inl hg', hg (.inr rfl), (by rintro ⟨⟩), found⟩
        exact (Function.update_self ..).trans (by simp [Post.holds])
  | handle l =>
      simp only [exec] at hexec
      split at hexec <;> cases hexec
      exact ⟨held, apart, pinst, seen, found⟩
  | unlock =>
      cases hexec
      have hg' : g.holds = false := apart.resolve_right (by rintro ⟨⟩)
      refine ⟨?_, .inr rfl, hg (.inl rfl), (by rintro ⟨⟩), found⟩
      exact (Function.update_self ..).trans (by simp [Post.holds, hg'])

/-- A call that holds nothing returns. -/
theorem Keys.reply (h : Keys d u g w) (hg : g.holds = false) : Keys d u .outside w :=
  ⟨h.held.trans (by rw [hg]; rfl), .inl rfl, fun hw => h.pinst (.inr (.inr (by simpa using hw))),
    h.seen, nofun⟩

/-- A handler starts, for a device that is there. -/
theorem Keys.start (h : Keys d u g .outside) (hpinst : d.pinst u = true) : Keys d u g .start :=
  ⟨h.held, .inr rfl, fun _ => hpinst, nofun, h.found⟩

end Steps

/-! ## A request that is completed -/

section Completing

variable {u : Fin 3} {c c' : Channel} {d : Cdevs}

/-- The platform driver completes a request of one direction. -/
def completing (c : Channel) : Outcome := ⟨true, 0, ⟨[⟨c, 1, 0⟩], List.nodup_singleton _⟩⟩

/-- The release of a caller, if it has been asked for. -/
def Cdevs.release (d : Cdevs) (u : Fin 3) (c : Channel) : Cdevs :=
  if (d.line u c).doRelease then
    (d.setLine u c { d.line u c with doRelease := false }).setLine u c
      { d.line u c with doRelease := false, syncMtx := false }
  else d

theorem run_releaseCaller (x : Outcome) (u : Fin 3) (c : Channel) (d : Cdevs) :
    (releaseCaller u c).run (exec x) d = some ((), d.release u c) := by
  cases hrelease : (d.line u c).doRelease with
  | false => simp [releaseCaller, op, Prog.run, exec, hrelease, Cdevs.release]
  | true => simp [releaseCaller, op, Prog.perform, Prog.run, exec, hrelease, Cdevs.release]

theorem syncMtx_release (h : (d.line u c).doRelease = true) :
    ((d.release u c).line u c).syncMtx = false := by
  simp [Cdevs.release, h]

theorem line_release_of_ne (h : c' ≠ c) : (d.release u c').line u c = d.line u c := by
  have hne : (u, c') ≠ (u, c) := fun heq => h (congrArg Prod.snd heq)
  unfold Cdevs.release
  split
  · rw [Cdevs.line_setLine_of_ne hne, Cdevs.line_setLine_of_ne hne]
  · rfl

/-- The handler lets the caller of a completed request go. -/
theorem run_completing (hpinst : d.pinst u = true) (hmtx : d.stateMtx u = false)
    (hpending : (d.line u c).pending = true) :
    ∃ d', (tk1UartIrqHandle u).run (exec (completing c)) d = some ((), d') ∧
      (d'.line u c).syncMtx = false := by
  let l : Line :=
    { d.line u c with
      doRelease := true
      pending := false
      bytesRequested := 1
      bytesTransfered := 0 }
  let d₁ : Cdevs := { d with stateMtx := Function.update d.stateMtx u false }.setLine u c l
  have hrun : (tk1UartIrqHandle u).run (exec (completing c)) d =
      some ((), (d₁.release u .write).release u .read) := by
    simp [tk1UartIrqHandle, tk1UartIrqHandler, runCallbacks, completing, op, Prog.perform, Prog.run,
      Prog.run_bind, exec, run_releaseCaller, hpinst, hmtx, hpending, Line.callback, Cdevs.setLine]
    rfl
  have hrelease : (d₁.line u c).doRelease = true := by
    rw [Cdevs.line_setLine_self]
  refine ⟨_, hrun, ?_⟩
  cases c with
  | write =>
      rw [line_release_of_ne (by decide)]
      exact syncMtx_release hrelease
  | read => exact syncMtx_release (by rwa [line_release_of_ne (by decide)])

end Completing

/-- Not a new call. -/
def Act.Inner : Act → Prop
  | .call _ => False
  | _ => True

/-! ## Runs -/

namespace System

variable (nvUartaAsync : ℤ)

/-- A step where no initialization fails, and an interrupt comes from a device that has been
initialized. -/
def GoodStep (s : System) (a : Act) (o : Unit) (s' : System) : Prop :=
  Step nvUartaAsync s a o s' ∧ (∀ u, ¬ s.InitFails a u) ∧ ∀ u, a = .irq u → s.cdevs.pinst u = true

/-- What is known of the call, seen from one UART. -/
def CallAt (u : Fin 3) : Option (Call × Io ℤ) → Spot → Prop
  | none, g => g = .outside
  | some (q, p), g =>
      if uartIndex nvUartaAsync q.uartNum = some u then
        p.Follows (CallRule u q.channel) g fun _ g' => g'.holds = true → g' = .failed
      else g = .outside ∧ p.Every fun o => ¬ o.Special u

/-- The invariant of a UART. -/
structure Live (s : System) (u : Fin 3) (g : Spot) (w : Post) : Prop where
  keys : Keys s.cdevs u g w
  call : CallAt nvUartaAsync u s.rpc g
  handler : (s.handler u).Follows (IrqRule u) w fun _ w => w = .outside
  others : ∀ v, v ≠ u → (s.handler v).Every fun o => ¬ o.Special u

variable {nvUartaAsync} {s s' : System} {a : Act} {u : Fin 3} {g : Spot} {w w' : Post}

theorem live_of_started (h : Started s) (u : Fin 3) : Live nvUartaAsync s u .outside .outside := by
  obtain ⟨x, buff, d, hrun, rfl⟩ := h
  obtain ⟨-, rfl⟩ := Prod.mk.inj (Option.some.inj hrun)
  exact ⟨⟨rfl, .inl rfl, nofun, nofun, nofun⟩, rfl, rfl, fun _ _ => trivial⟩

theorem callAt_body (nvUartaAsync : ℤ) (u : Fin 3) (q : Call) :
    CallAt nvUartaAsync u (some (q, q.body nvUartaAsync)) .outside := by
  rw [CallAt, Call.body_eq, tk1UartCall]
  cases hindex : uartIndex nvUartaAsync q.uartNum with
  | none => exact ⟨rfl, trivial⟩
  | some u' =>
      by_cases hu : u' = u
      · subst hu
        rw [if_pos rfl]
        exact follows_transfer_call u' q.channel q.nbytes
      · rw [if_neg fun h => hu (Option.some.inj h)]
        exact ⟨rfl, (about_transfer q.channel u' q.nbytes).mono fun _ ho => ho.not_special hu⟩

namespace Live

theorem outside_of_ret {q : Call} {ret : ℤ} (h : Live nvUartaAsync s u g w)
    (hprog : s.rpc = some (q, .ret ret)) : g.holds = false := by
  have hcall := h.call
  rw [hprog, CallAt] at hcall
  split at hcall
  · exact Bool.eq_false_iff.2 fun hg => h.keys.found (hcall hg)
  · rw [hcall.1]
    rfl

theorem rpc {x : Outcome} {q : Call} {o : Op} {k : Ans o → Io ℤ} {r : Ans o} {d : Cdevs} {log : Log}
    (h : Live nvUartaAsync s u g w) (hprog : s.rpc = some (q, .call o k))
    (hexec : exec x o s.cdevs = some (r, d)) (hx : o = .cdevInit u → x.init = true) :
    ∃ g', Live nvUartaAsync { s with rpc := some (q, k r), cdevs := d, log := log } u g' w := by
  obtain ⟨keys, call, handler, others⟩ := h
  rw [hprog, CallAt] at call
  split at call
  · rename_i hindex
    obtain ⟨g', hrule, hk⟩ := call r
    refine ⟨g', keys.call hrule hexec hx, ?_, handler, others⟩
    rwa [CallAt, if_pos hindex]
  · rename_i hindex
    obtain ⟨hg, hspecial, hk⟩ := call
    refine ⟨g, keys.congr (shared_exec hexec hspecial), ?_, handler, others⟩
    rw [CallAt, if_neg hindex]
    exact ⟨hg, hk r⟩

/-- The handler of the UART goes on with another program. -/
theorem own_handler {p : Io Unit} {d : Cdevs} {log : Log} (h : Live nvUartaAsync s u g w)
    (hkeys : Keys d u g w') (hp : p.Follows (IrqRule u) w' fun _ w => w = .outside) :
    Live nvUartaAsync
      { s with handler := Function.update s.handler u p, cdevs := d, log := log } u g w' := by
  refine ⟨hkeys, h.call, ?_, fun v hv => ?_⟩
  · show (Function.update s.handler u p u).Follows _ _ _
    rwa [Function.update_self]
  · show (Function.update s.handler u p v).Every _
    rw [Function.update_of_ne hv]
    exact h.others v hv

/-- The handler of another UART goes on with another program. -/
theorem other_handler {v : Fin 3} {p : Io Unit} {d : Cdevs} {log : Log}
    (h : Live nvUartaAsync s u g w) (hv : v ≠ u) (hkeys : Keys d u g w)
    (hp : p.Every fun o => ¬ o.Special u) :
    Live nvUartaAsync
      { s with handler := Function.update s.handler v p, cdevs := d, log := log } u g w := by
  refine ⟨hkeys, h.call, ?_, fun v' hv' => ?_⟩
  · show (Function.update s.handler v p u).Follows _ _ _
    rw [Function.update_of_ne (Ne.symm hv)]
    exact h.handler
  · show (Function.update s.handler v p v').Every _
    by_cases heq : v' = v
    · rwa [heq, Function.update_self]
    · rw [Function.update_of_ne heq]
      exact h.others v' hv'

theorem handle {v : Fin 3} {x : Outcome} {o : Op} {k : Ans o → Io Unit} {r : Ans o} {d : Cdevs}
    {log : Log} (h : Live nvUartaAsync s u g w) (hprog : s.handler v = .call o k)
    (hexec : exec x o s.cdevs = some (r, d)) :
    ∃ w', Live nvUartaAsync
      { s with handler := Function.update s.handler v (k r), cdevs := d, log := log } u g w' := by
  by_cases hv : v = u
  · subst hv
    have hhandler := h.handler
    rw [hprog] at hhandler
    obtain ⟨w', hrule, hk⟩ := hhandler r
    exact ⟨w', h.own_handler (h.keys.irq hrule hexec) hk⟩
  · have hothers := h.others v hv
    rw [hprog] at hothers
    exact ⟨w, h.other_handler hv (h.keys.congr (shared_exec hexec hothers.1)) (hothers.2 r)⟩

theorem irq {v : Fin 3} (h : Live nvUartaAsync s u g w) (hrest : s.handler v = .ret ())
    (hpinst : s.cdevs.pinst v = true) :
    ∃ w', Live nvUartaAsync
      { s with handler := Function.update s.handler v (tk1UartIrqHandle v) } u g w' := by
  by_cases hv : v = u
  · subst hv
    have hw := h.handler
    rw [hrest] at hw
    obtain rfl : w = .outside := hw
    exact ⟨.start, h.own_handler (h.keys.start hpinst) (follows_irqHandle_irq v)⟩
  · have hother := (about_irqHandle v).mono fun _ ho => ho.not_special hv
    exact ⟨w, h.other_handler hv h.keys hother⟩

theorem step {o : Unit} (h : Live nvUartaAsync s u g w) (hs : GoodStep nvUartaAsync s a o s') :
    ∃ g' w', Live nvUartaAsync s' u g' w' := by
  obtain ⟨⟨hstep, -⟩, hgood, hirq⟩ := hs
  cases moves_of_step hstep with
  | call q hidle =>
      have hcall := h.call
      rw [hidle] at hcall
      obtain rfl : g = .outside := hcall
      exact ⟨.outside, w, h.keys, callAt_body nvUartaAsync u q, h.handler, h.others⟩
  | @rpc x q o k r d hprog hexec =>
      have hx : o = .cdevInit u → x.init = true := by
        rintro rfl
        by_contra hinit
        exact hgood u ⟨x, q, k, rfl, hprog, Bool.eq_false_iff.2 hinit⟩
      obtain ⟨g', h'⟩ := h.rpc hprog hexec hx
      exact ⟨g', w, h'⟩
  | reply hprog =>
      exact ⟨.outside, w, h.keys.reply (h.outside_of_ret hprog), rfl, h.handler, h.others⟩
  | irq hrest =>
      obtain ⟨w', h'⟩ := h.irq hrest (hirq _ rfl)
      exact ⟨g, w', h'⟩
  | handler hprog hexec =>
      obtain ⟨w', h'⟩ := h.handle hprog hexec
      exact ⟨g, w', h'⟩

end Live

/-- What holds in every state that is reached. -/
structure Healthy (nvUartaAsync : ℤ) (s : System) : Prop where
  tracked : ∀ u c, ∃ φ g w, Tracked nvUartaAsync s u c φ g w
  live : ∀ u, ∃ g w, Live nvUartaAsync s u g w
  named : ∀ q p, s.rpc = some (q, p) →
    (∃ u, uartIndex nvUartaAsync q.uartNum = some u) ∨ ∃ ret, p = .ret ret

namespace Healthy

theorem of_started (h : Started s) : Healthy nvUartaAsync s where
  tracked _ _ := ⟨_, _, _, tracked_of_started h⟩
  live u := ⟨_, _, live_of_started h u⟩
  named q p hprog := by
    obtain ⟨x, buff, d, -, rfl⟩ := h
    cases hprog

theorem step {o : Unit} (h : Healthy nvUartaAsync s) (hs : GoodStep nvUartaAsync s a o s') :
    Healthy nvUartaAsync s' where
  tracked u c := by
    obtain ⟨φ, g, w, htracked⟩ := h.tracked u c
    exact htracked.step hs.1
  live u := by
    obtain ⟨g, w, hlive⟩ := h.live u
    exact hlive.step hs
  named q p hprog := by
    cases moves_of_step hs.1.1 with
    | call q' hidle =>
        obtain ⟨rfl, rfl⟩ := Prod.mk.inj (Option.some.inj hprog)
        rw [Call.body_eq, tk1UartCall]
        cases uartIndex nvUartaAsync q'.uartNum with
        | none => exact .inr ⟨-1, rfl⟩
        | some u => exact .inl ⟨u, rfl⟩
    | @rpc x q' o k r d hprog' hexec =>
        obtain ⟨rfl, rfl⟩ := Prod.mk.inj (Option.some.inj hprog)
        obtain hindex | ⟨ret, hret⟩ := h.named _ _ hprog'
        · exact .inl hindex
        · cases hret
    | reply hprog' => cases hprog
    | irq hrest | handler hprog' hexec => exact h.named q p hprog

end Healthy

/-! ## What can be brought about -/

/-- The threads that are there can bring the component to a state with this property. -/
def Leads (nvUartaAsync : ℤ) (s : System) (P : System → Prop) : Prop :=
  ∃ as os s', Run (GoodStep nvUartaAsync) s as os s' ∧ (∀ a ∈ as, a.Inner) ∧
    Healthy nvUartaAsync s' ∧ P s'

namespace Leads

variable {P Q : System → Prop}

theorem nil (h : Healthy nvUartaAsync s) (hP : P s) : Leads nvUartaAsync s P :=
  ⟨[], [], s, .nil s, nofun, h, hP⟩

theorem cons (h : Healthy nvUartaAsync s) (hs : GoodStep nvUartaAsync s a () s') (hinner : a.Inner)
    (hrest : Healthy nvUartaAsync s' → Leads nvUartaAsync s' P) : Leads nvUartaAsync s P := by
  obtain ⟨as, os, s'', hrun, has, h'', hP⟩ := hrest (h.step hs)
  exact ⟨a :: as, () :: os, s'', .cons hs hrun, List.forall_mem_cons.2 ⟨hinner, has⟩, h'', hP⟩

theorem bind (h : Leads nvUartaAsync s P)
    (hQ : ∀ s', Healthy nvUartaAsync s' → P s' → Leads nvUartaAsync s' Q) :
    Leads nvUartaAsync s Q := by
  obtain ⟨as, os, s', hrun, has, h', hP⟩ := h
  obtain ⟨bs, ps, s'', hrun', hbs, h'', hQ⟩ := hQ s' h' hP
  refine ⟨as ++ bs, os ++ ps, s'', hrun.append hrun', fun a ha => ?_, h'', hQ⟩
  exact (List.mem_append.1 ha).elim (has a) (hbs a)

end Leads

theorem goodStep_rpc {x : Outcome} {q : Call} {o : Op} {k : Ans o → Io ℤ} {r : Ans o} {d : Cdevs}
    (hprog : s.rpc = some (q, .call o k)) (hexec : exec x o s.cdevs = some (r, d))
    (hinit : x.init = true) :
    GoodStep nvUartaAsync s (.rpc x) ()
      { s with rpc := some (q, k r), cdevs := d, log := s.log ++ (o.event r s.cdevs).toList } := by
  refine ⟨⟨?_, trivial⟩, ?_, nofun⟩
  · simp [System.step, hprog, Prog.advance, record, hexec]
  · rintro u ⟨x', q', k', hx, -, hfail⟩
    cases hx
    rw [hinit] at hfail
    cases hfail

theorem goodStep_handler {x : Outcome} {o : Op} {k : Ans o → Io Unit} {r : Ans o} {d : Cdevs}
    (hprog : s.handler u = .call o k) (hexec : exec x o s.cdevs = some (r, d))
    (hadm : Admissible (.handler u x)) :
    GoodStep nvUartaAsync s (.handler u x) ()
      { s with
        handler := Function.update s.handler u (k r)
        cdevs := d
        log := s.log ++ (o.event r s.cdevs).toList } := by
  refine ⟨⟨?_, hadm⟩, ?_, nofun⟩
  · simp [System.step, hprog, Prog.advance, record, hexec]
  · rintro u ⟨x', q', k', hx, -⟩
    cases hx

theorem goodStep_irq (hrest : s.handler u = .ret ()) (hpinst : s.cdevs.pinst u = true) :
    GoodStep nvUartaAsync s (.irq u) ()
      { s with handler := Function.update s.handler u (tk1UartIrqHandle u) } := by
  refine ⟨⟨?_, trivial⟩, ?_, ?_⟩
  · simp [System.step, hrest]
  · rintro u ⟨x', q', k', hx, -⟩
    cases hx
  · rintro u ⟨⟩
    exact hpinst

theorem goodStep_reply {q : Call} {ret : ℤ} (hprog : s.rpc = some (q, .ret ret)) :
    GoodStep nvUartaAsync s .reply ()
      { s with rpc := none, log := s.log ++ q.event nvUartaAsync (.return ret) } := by
  refine ⟨⟨?_, trivial⟩, ?_, nofun⟩
  · simp [System.step, hprog]
  · rintro u ⟨x', q', k', hx, -⟩
    cases hx

/-! ### The handlers -/

/-- The platform driver finds its device, accepts what it is asked, and completes nothing. -/
theorem exec_irq {d : Cdevs} {o : Op} {r : Ans o} {w' : Post} (h : Keys d u g w)
    (hg : g.holds = false) (hrule : IrqRule u w o r w') : (exec (device true) o d).isSome := by
  cases hrule with
  | plain _ hwaits => exact exec_of_not_waits _ hwaits d
  | look pinst | unlock => rfl
  | assert pinst =>
      cases pinst with
      | true => rfl
      | false => exact absurd rfl h.seen
  | lock =>
      have hfree : d.stateMtx u = false := by simp [h.held, hg, Post.holds]
      simp [exec, hfree]
  | handle l => simp [exec, device]

/-- A handler has come to its end. -/
def HandlerEnds (s : System) (u : Fin 3) (s' : System) : Prop :=
  s'.rpc = s.rpc ∧ s'.handler = Function.update s.handler u (.ret ())

/-- If the call is not inside, a handler can come to its end. -/
theorem handler_ends {p : Io Unit} (h : Healthy nvUartaAsync s) (hprog : s.handler u = p)
    (hlive : Live nvUartaAsync s u g w) (hg : g.holds = false) :
    Leads nvUartaAsync s (HandlerEnds s u) := by
  induction p generalizing s w with
  | ret a => exact .nil h ⟨rfl, by rw [← hprog, Function.update_eq_self]⟩
  | call o k ih =>
      obtain ⟨r₀⟩ := nonempty_ans o
      have hfollows := hlive.handler
      rw [hprog] at hfollows
      obtain ⟨w₁, hrule, -⟩ := hfollows r₀
      obtain ⟨⟨r, d⟩, hexec⟩ := Option.isSome_iff_exists.1 (exec_irq hlive.keys hg hrule)
      have hadm : Admissible (.handler u (device true)) := fun _ he => absurd he List.not_mem_nil
      refine .cons h (goodStep_handler hprog hexec hadm) trivial fun h₁ => ?_
      obtain ⟨w', hlive'⟩ := hlive.handle hprog hexec
      refine (ih r h₁ (Function.update_self ..) hlive').bind fun s' h' ⟨hrpc, hhandler⟩ => ?_
      exact .nil h' ⟨hrpc, hhandler.trans (Function.update_idem ..)⟩

/-- If a handler runs through alone, it can do so here. -/
theorem handler_runs {p : Io Unit} {x : Outcome} {d : Cdevs} (h : Healthy nvUartaAsync s)
    (hprog : s.handler u = p) (hadm : Admissible (.handler u x))
    (hrun : p.run (exec x) s.cdevs = some ((), d)) :
    Leads nvUartaAsync s fun s' => HandlerEnds s u s' ∧ s'.cdevs = d := by
  induction p generalizing s with
  | ret a =>
      obtain ⟨-, rfl⟩ := Prod.mk.inj (Option.some.inj hrun)
      exact .nil h ⟨⟨rfl, by rw [← hprog, Function.update_eq_self]⟩, rfl⟩
  | call o k ih =>
      simp only [Prog.run] at hrun
      split at hrun
      · cases hrun
      · rename_i r d₁ hexec
        refine .cons h (goodStep_handler hprog hexec hadm) trivial fun h₁ => ?_
        refine (ih r h₁ (Function.update_self ..) hrun).bind fun s' h' hends => ?_
        obtain ⟨⟨hrpc, hhandler⟩, hd⟩ := hends
        exact .nil h' ⟨⟨hrpc, hhandler.trans (Function.update_idem ..)⟩, hd⟩

/-! ### The call -/

/-- The state mutex is free when the call is outside and the handler rests. -/
theorem Live.free (h : Live nvUartaAsync s u g w) (hrest : s.handler u = .ret ())
    (hg : g.holds = false) : s.cdevs.stateMtx u = false := by
  have hw := h.handler
  rw [hrest] at hw
  obtain rfl : w = .outside := hw
  simp [h.keys.held, hg, Post.holds]

/-- A caller that waits for its release has been released, or its request is pending. -/
theorem free_or_pending {q : Call} {c : Channel} {k : Unit → Io ℤ} (h : Healthy nvUartaAsync s)
    (hprog : s.rpc = some (q, .call (.syncLock u c) k)) (hrest : s.handler u = .ret ()) :
    (s.cdevs.line u c).syncMtx = false ∨ (s.cdevs.line u c).pending = true := by
  obtain ⟨φ, g, w, -, token, caller, handler, -⟩ := h.tracked u c
  rw [hprog] at caller
  rw [hrest] at handler
  obtain rfl : w = .rest := handler
  obtain ⟨g', hrule, -⟩ := caller.2 ()
  generalize s.cdevs.line u c = l at token ⊢
  cases hrule with
  | away hline _ => exact absurd rfl hline
  | syncLock =>
      cases token with
      | accepted => exact .inr rfl
      | free => exact .inl rfl
      | flagged hw => rcases hw with hw | hw <;> cases hw

/-- The next operation of the call can be performed. -/
def Ready (s : System) (q : Call) (o : Op) (k : Ans o → Io ℤ) : Prop :=
  s.rpc = some (q, .call o k) ∧ (exec (device true) o s.cdevs).isSome

theorem ready_of_rest {q : Call} {o : Op} {k : Ans o → Io ℤ} (h : Healthy nvUartaAsync s)
    (hprog : s.rpc = some (q, .call o k)) (hindex : uartIndex nvUartaAsync q.uartNum = some u)
    (hrest : s.handler u = .ret ()) : Leads nvUartaAsync s fun s' => Ready s' q o k := by
  obtain ⟨r⟩ := nonempty_ans o
  obtain ⟨g, w, hlive⟩ := h.live u
  have hcall := hlive.call
  rw [hprog, CallAt, if_pos hindex] at hcall
  obtain ⟨g', hrule, -⟩ := hcall r
  cases hrule with
  | plain _ hwaits => exact .nil h ⟨hprog, exec_of_not_waits _ hwaits _⟩
  | look | init | unlock => exact .nil h ⟨hprog, rfl⟩
  | lock =>
      have hfree := hlive.free hrest rfl
      exact .nil h ⟨hprog, by simp [exec, hfree]⟩
  | sync =>
      obtain hsync | hpending := free_or_pending h hprog hrest
      · exact .nil h ⟨hprog, by simp [exec, hsync]⟩
      · have hpinst := hlive.keys.pinst (.inr (.inl rfl))
        obtain ⟨d, hrun, hsync⟩ := run_completing hpinst (hlive.free hrest rfl) hpending
        have hadm : Admissible (.handler u (completing q.channel)) := by
          simp [Admissible, completing]
        refine .cons h (goodStep_irq hrest hpinst) trivial fun h₁ => ?_
        refine (handler_runs h₁ (Function.update_self ..) hadm hrun).bind
          fun s' h' hends => ?_
        obtain ⟨⟨hrpc, -⟩, hd⟩ := hends
        exact .nil h' ⟨hrpc.trans hprog, by simp [exec, hd, hsync]⟩

/-- Nothing keeps a call from its next operation for good. -/
theorem unblock {q : Call} {o : Op} {k : Ans o → Io ℤ} (h : Healthy nvUartaAsync s)
    (hprog : s.rpc = some (q, .call o k)) : Leads nvUartaAsync s fun s' => Ready s' q o k := by
  obtain ⟨u, hindex⟩ | ⟨ret, hret⟩ := h.named q _ hprog
  · obtain ⟨r⟩ := nonempty_ans o
    obtain ⟨g, w, hlive⟩ := h.live u
    cases hg : g.holds with
    | false =>
        refine (handler_ends h rfl hlive hg).bind fun s' h' ⟨hrpc, hhandler⟩ => ?_
        refine ready_of_rest h' (hrpc.trans hprog) hindex ?_
        rw [hhandler, Function.update_self]
    | true =>
        have hcall := hlive.call
        rw [hprog, CallAt, if_pos hindex] at hcall
        obtain ⟨g', hrule, -⟩ := hcall r
        cases hrule with
        | plain _ hwaits => exact .nil h ⟨hprog, exec_of_not_waits _ hwaits _⟩
        | look | init | unlock => exact .nil h ⟨hprog, rfl⟩
        | lock | sync => cases hg
  · cases hret

/-- A call can come to its end. -/
theorem call_ends {q : Call} {p : Io ℤ} (h : Healthy nvUartaAsync s)
    (hprog : s.rpc = some (q, p)) : Leads nvUartaAsync s fun s' => s'.rpc = none := by
  induction p generalizing s with
  | ret ret => exact .cons h (goodStep_reply hprog) trivial fun h' => .nil h' rfl
  | call o k ih =>
      refine (unblock h hprog).bind fun s₁ h₁ ⟨hprog₁, hready⟩ => ?_
      obtain ⟨⟨r, d⟩, hexec⟩ := Option.isSome_iff_exists.1 hready
      exact .cons h₁ (goodStep_rpc hprog₁ hexec rfl) trivial fun h₂ => ih r h₂ rfl

/-! ### The component at rest -/

/-- No thread runs, no request is pending, and only the mutexes on which callers wait are held. -/
structure AtRest (s : System) : Prop where
  rpc : s.rpc = none
  handler (u : Fin 3) : s.handler u = .ret ()
  stateMtx (u : Fin 3) : s.cdevs.stateMtx u = false
  syncMtx (u : Fin 3) (c : Channel) : (s.cdevs.line u c).syncMtx = true
  doRelease (u : Fin 3) (c : Channel) : (s.cdevs.line u c).doRelease = false
  pending (u : Fin 3) (c : Channel) : (s.cdevs.line u c).pending = false

theorem Live.outside_of_idle (h : Live nvUartaAsync s u g w) (hidle : s.rpc = none) :
    g.holds = false := by
  have hcall := h.call
  rw [hidle] at hcall
  obtain rfl : g = .outside := hcall
  rfl

theorem atRest_of_idle (h : Healthy nvUartaAsync s) (hidle : s.rpc = none)
    (hrest : ∀ u, s.handler u = .ret ()) : s.AtRest := by
  have hline : ∀ u c, ∃ φ, Token (s.cdevs.line u c) φ .out .rest := by
    intro u c
    obtain ⟨φ, g, w, -, token, caller, handler, -⟩ := h.tracked u c
    rw [hidle] at caller
    rw [hrest u] at handler
    obtain rfl : g = .out := caller
    obtain rfl : w = .rest := handler
    exact ⟨φ, token⟩
  refine ⟨hidle, hrest, fun u => ?_, fun u c => ?_, fun u c => ?_, fun u c => ?_⟩
  · obtain ⟨g, w, hlive⟩ := h.live u
    exact hlive.free (hrest u) (hlive.outside_of_idle hidle)
  all_goals
    obtain ⟨φ, token⟩ := hline u c
    generalize s.cdevs.line u c = l at token ⊢
    cases token
    rfl

/-- When the client is in no call, a handler can come to its end. -/
theorem idle_handler_ends (h : Healthy nvUartaAsync s) (hidle : s.rpc = none) (u : Fin 3) :
    Leads nvUartaAsync s fun s' =>
      s'.rpc = none ∧ s'.handler = Function.update s.handler u (.ret ()) := by
  obtain ⟨g, w, hlive⟩ := h.live u
  refine (handler_ends h rfl hlive (hlive.outside_of_idle hidle)).bind
    fun s' h' ⟨hrpc, hhandler⟩ => ?_
  exact .nil h' ⟨hrpc.trans hidle, hhandler⟩

theorem rests (h : Healthy nvUartaAsync s) (hidle : s.rpc = none) :
    Leads nvUartaAsync s AtRest := by
  refine (idle_handler_ends h hidle 0).bind fun s₀ h₀ ⟨hidle₀, hhandler₀⟩ => ?_
  refine (idle_handler_ends h₀ hidle₀ 1).bind fun s₁ h₁ ⟨hidle₁, hhandler₁⟩ => ?_
  refine (idle_handler_ends h₁ hidle₁ 2).bind fun s₂ h₂ ⟨hidle₂, hhandler₂⟩ => ?_
  refine .nil h₂ (atRest_of_idle h₂ hidle₂ fun u => ?_)
  rw [hhandler₂, hhandler₁, hhandler₀]
  fin_cases u <;> rfl

/-- From every state that the component comes to, the threads that are there can bring it back to
rest, where the call that was made has returned. -/
theorem calls_can_end (h : Reachable (GoodStep nvUartaAsync) Started s) :
    ∃ as os s', Run (GoodStep nvUartaAsync) s as os s' ∧ (∀ a ∈ as, a.Inner) ∧ s'.AtRest := by
  have hhealthy : Healthy nvUartaAsync s :=
    h.invariant (fun _ hs => .of_started hs) fun _ _ _ _ hs hstep => hs.step hstep
  have hleads : Leads nvUartaAsync s AtRest := by
    cases hrpc : s.rpc with
    | none => exact rests hhealthy hrpc
    | some qp => exact (call_ends hhealthy hrpc).bind fun s' h' hidle => rests h' hidle
  obtain ⟨as, os, s', hrun, has, -, hrest⟩ := hleads
  exact ⟨as, os, s', hrun, has, hrest⟩

/-- An initialization finds its device, and an interrupt comes from a device that is there. -/
def finds (s : System) : Act → Bool
  | .rpc x => x.init
  | .irq u => s.cdevs.pinst u
  | _ => true

theorem goodStep_of_ite
    (h : (if Admissible a ∧ s.finds a then s.step nvUartaAsync a else none) = some s') :
    GoodStep nvUartaAsync s a () s' := by
  split at h
  · rename_i hgood
    refine ⟨⟨h, hgood.1⟩, ?_, ?_⟩
    · rintro u ⟨x, q, k, rfl, -, hinit⟩
      exact Bool.false_ne_true (hinit.symm.trans hgood.2)
    · rintro u rfl
      exact hgood.2
  · cases h

/-- A first write, up to where it waits for its release. -/
def waitingWrite : List Act := .call ⟨.write, 0, 5⟩ :: List.replicate 7 (.rpc (device true))

theorem run_waitingWrite :
    (waitingWrite.foldlM
      (fun s a => if Admissible a ∧ s.finds a then s.step 0 a else none) connected).map
        (fun s => ((s.cdevs.line 0 .write).pending, (s.step 0 (.rpc (device true))).isNone)) =
      some (true, true) := rfl

theorem calls_can_end_waiting :
    ∃ s : System, (s.cdevs.line 0 .write).pending = true ∧
      (s.step 0 (.rpc (device true))).isNone = true ∧
      ∃ as os s', Run (GoodStep 0) s as os s' ∧ (∀ a ∈ as, a.Inner) ∧ s'.AtRest := by
  obtain ⟨s, hrun, hs⟩ := Option.map_eq_some_iff.1 run_waitingWrite
  obtain ⟨hpending, hwaits⟩ := Prod.mk.inj hs
  have hreach : Reachable (GoodStep 0) Started s :=
    .foldlM_of (fun _ _ _ hstep => ⟨(), goodStep_of_ite hstep⟩) hrun (.of_init started_connected)
  exact ⟨s, hpending, hwaits, calls_can_end hreach⟩

end System

end Uart
end Tk1Bsp
