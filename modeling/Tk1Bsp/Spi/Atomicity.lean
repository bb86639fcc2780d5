import Tk1Bsp.Framework.Refinement
import Tk1Bsp.Spi.Invariant

/-!
# The commands of the CAN driver are atomic

`Can.System` takes an SPI transaction as one step.  Here is why it may: the system in which the
commands of the two threads are made of small steps (`Spi.System`) cannot reach more.  A command
takes place when the bus exchanges its bytes with the controller (`Matches`), and all other steps of
it look like nothing.

The bus driver may refuse a transfer.  `spi_transfer` then returns its error, which the CAN driver
ignores: the command is lost, and the thread goes on with what an earlier command left in the
buffer.
-/

namespace Tk1Bsp
namespace Spi

open Prog

/-! ## Threads and their commands -/

theorem command_eq_some {α : Type} {p : Can.Io α} {txbuf : List (BitVec 8)} {rcount : ℕ}
    (h : command p = some (txbuf, rcount)) :
    (∃ k, p = .call (.spi txbuf rcount) k) ∨
      ∃ reg k, p = .call (.spinWhileNonzero reg) k ∧ txbuf = [0x03, reg] ∧ rcount = 1 := by
  unfold command at h
  split at h
  · rename_i k
    obtain ⟨rfl, rfl⟩ := Prod.mk.inj (Option.some.inj h)
    exact .inl ⟨k, rfl⟩
  · rename_i reg k
    obtain ⟨rfl, rfl⟩ := Prod.mk.inj (Option.some.inj h)
    exact .inr ⟨reg, k, rfl, rfl, rfl⟩
  · cases h

theorem commandOf_client {can : Can.System} {cmd : List (BitVec 8) × ℕ}
    (h : commandOf can .client = some cmd) :
    ∃ c p, can.client = some (c, p) ∧ command p = some cmd := by
  obtain ⟨⟨c, p⟩, hclient, hp⟩ := Option.bind_eq_some_iff.1 h
  exact ⟨c, p, hclient, hp⟩

theorem commandOf_answer_of_ne (can : Can.System) (reply : List (BitVec 8)) {t t' : Tid}
    (h : t' ≠ t) : commandOf (answer can reply t) t' = commandOf can t' := by
  cases t <;> cases t' <;> first | exact absurd rfl h | rfl

/-- The reply to the command of one thread and a step of anything else can come in either order. -/
theorem moves_answer {can can' : Can.System} {t : Tid} {a : Can.Act} {cmd : List (BitVec 8) × ℕ}
    (reply : List (BitVec 8)) (hcmd : commandOf can t = some cmd) (ha : a ≠ t.act)
    (h : can.Moves a can') :
    commandOf can' t = some cmd ∧ (answer can reply t).Moves a (answer can' reply t) := by
  cases t with
  | client =>
      obtain ⟨c, p, hclient, hp⟩ := commandOf_client hcmd
      cases h with
      | call c' hidle => exact absurd (hclient.symm.trans hidle) (Option.some_ne_none _)
      | reply hprog => exact absurd rfl ha
      | client hprog hexec => exact absurd rfl ha
      | irq frame hrest => exact ⟨hcmd, .irq frame hrest⟩
      | handler hprog hexec => exact ⟨hcmd, .handler hprog hexec⟩
      | chip hevent => exact ⟨hcmd, .chip hevent⟩
  | handler =>
      cases h with
      | call c hidle => exact ⟨hcmd, .call c hidle⟩
      | @reply c r hprog =>
          have hreply : answer (can.reply c r) reply .handler =
              (answer can reply .handler).reply c r := by
            cases r <;> rfl
          refine ⟨?_, hreply ▸ .reply hprog⟩
          cases r <;> exact hcmd
      | client hprog hexec => exact ⟨hcmd, .client hprog hexec⟩
      | irq frame hrest =>
          have hnone : commandOf can .handler = none := congrArg command hrest
          exact absurd (hcmd.symm.trans hnone) (Option.some_ne_none _)
      | handler hprog hexec => exact absurd rfl ha
      | chip hevent => exact ⟨hcmd, .chip hevent⟩

/-! ## What a step looks like -/

/-- What a step looks like from the CAN component: nothing, a step of it, or, after a refusal, the
loss of a command. -/
inductive Matches (refused : Prop) (can can' : Can.System) : Prop
  | stutter (h : can' = can)
  | step (a : Can.Act) (h : can.Moves a can')
  | lost (hrefused : refused) {t : Tid} {txbuf reply : List (BitVec 8)} {rcount : ℕ}
      (hcmd : commandOf can t = some (txbuf, rcount)) (hlen : reply.length = rcount)
      (h : can' = answer can reply t)

theorem length_spi_of_every {α : Type} {p : Can.Io α} {txbuf : List (BitVec 8)} {rcount : ℕ}
    (hp : p.Every Fits) (h : command p = some (txbuf, rcount)) :
    txbuf.length + rcount ≤ spiTransMaxSize ∧
      ∀ c : Can.Chip, (c.spi txbuf rcount).1.length = rcount := by
  obtain ⟨k, rfl⟩ | ⟨reg, k, rfl, rfl, rfl⟩ := command_eq_some h
  · exact hp.1
  · exact fits_read reg (by decide)

/-- The command of a thread fits into the buffers, and is answered in full. -/
theorem fits_command {can : Can.System} (hfit : can.Every Fits) {t : Tid}
    {txbuf : List (BitVec 8)} {rcount : ℕ} (h : commandOf can t = some (txbuf, rcount)) :
    txbuf.length + rcount ≤ spiTransMaxSize ∧
      ∀ c : Can.Chip, (c.spi txbuf rcount).1.length = rcount := by
  cases t with
  | client =>
      obtain ⟨c, p, hclient, hp⟩ := commandOf_client h
      exact length_spi_of_every (hfit.1 c p hclient) hp
  | handler => exact length_spi_of_every hfit.2 h

/-- A program that has come to a command goes on by the exchange as by its operation, or it goes
round in its loop. -/
theorem proceed_cases {α : Type} {p : Can.Io α} {txbuf : List (BitVec 8)} {rcount : ℕ}
    (d : Can.Driver) (hist : Can.History) (h : command p = some (txbuf, rcount)) :
    (∃ o k r, p = .call o k ∧
        Can.exec o d = some (r, { d with chip := (d.chip.spi txbuf rcount).2 }) ∧
        proceed (d.chip.spi txbuf rcount).1 p = k r ∧
        hist.record (.spi txbuf rcount) = hist.record o) ∨
      (proceed (d.chip.spi txbuf rcount).1 p = p ∧ (d.chip.spi txbuf rcount).2 = d.chip ∧
        hist.record (.spi txbuf rcount) = hist) := by
  obtain ⟨k, rfl⟩ | ⟨reg, k, rfl, rfl, rfl⟩ := command_eq_some h
  · exact .inl ⟨_, k, _, rfl, rfl, rfl, rfl⟩
  · have hhead : (d.chip.spi [0x03, reg] 1).1.headD 0 = d.chip.read (Can.toAddr reg) :=
      congrArg d.chip.read (Fin.ext (Nat.mod_eq_of_lt (Can.toAddr reg).isLt))
    by_cases hzero : d.chip.read (Can.toAddr reg) = 0
    · exact .inl ⟨_, k, (), rfl, if_pos hzero, if_pos (hhead.trans hzero), rfl⟩
    · exact .inr ⟨if_neg fun h => hzero (hhead.symm.trans h), rfl, rfl⟩

/-- The CAN component when the bytes of a command have been exchanged. -/
def exchanged (can : Can.System) (txbuf : List (BitVec 8)) (rcount : ℕ) : Can.System :=
  { can with
    driver := { can.driver with chip := (can.driver.chip.spi txbuf rcount).2 }
    history := can.history.record (.spi txbuf rcount) }

/-- The exchange of a command is the step of its thread. -/
theorem matches_exchange {refused : Prop} {can : Can.System} {t : Tid} {txbuf : List (BitVec 8)}
    {rcount : ℕ} (hcmd : commandOf can t = some (txbuf, rcount)) :
    Matches refused can
      (answer (exchanged can txbuf rcount) (can.driver.chip.spi txbuf rcount).1 t) := by
  obtain ⟨driver, client, handler, history⟩ := can
  cases t with
  | client =>
      obtain ⟨c, p, rfl, hp⟩ := commandOf_client hcmd
      obtain ⟨o, k, r, rfl, hexec, hproceed, hrecord⟩ | ⟨hproceed, hchip, hrecord⟩ :=
        proceed_cases driver history hp
      · refine .step .client ?_
        simp only [answer, exchanged, Option.map_some, hproceed, hrecord]
        exact .client rfl hexec
      · refine .stutter ?_
        simp only [answer, exchanged, Option.map_some, hproceed, hrecord, hchip]
  | handler =>
      obtain ⟨o, k, r, rfl, hexec, hproceed, hrecord⟩ | ⟨hproceed, hchip, hrecord⟩ :=
        proceed_cases driver history hcmd
      · refine .step .handler ?_
        simp only [answer, exchanged, hproceed, hrecord]
        exact .handler rfl hexec
      · refine .stutter ?_
        simp only [answer, exchanged, hproceed, hrecord, hchip]

/-! ## Steps outside of the commands -/

namespace Inv

variable {g : Ghost} {s s' : System} {code : ℤ}

/-- A step that only the SPI component can see, or only the driver's state. -/
theorem canSide_congr {g' : Ghost} (h : CanSide g s) (hclient : s'.can.client = s.can.client)
    (hhandler : s'.can.handler = s.can.handler) (hcmd : s'.cmd = s.cmd)
    (hlock : s'.spiLock = s.spiLock) (hplace : g'.progress.place = g.progress.place)
    (hfree : g'.progress = .free ↔ g.progress = .free)
    (hg : g' = { g with progress := g'.progress, interrupt := g'.interrupt }) : CanSide g' s' := by
  obtain ⟨holder, txbuf, rcount, progress, interrupt⟩ := g'
  obtain ⟨rfl, rfl, rfl⟩ : holder = g.holder ∧ txbuf = g.txbuf ∧ rcount = g.rcount :=
    ⟨congrArg Ghost.holder hg, congrArg Ghost.txbuf hg, congrArg Ghost.rcount hg⟩
  have hcommand : ∀ t, commandOf s'.can t = commandOf s.can t := by
    intro t
    cases t with
    | client => exact congrArg (fun c : Option _ => c.bind fun cp => command cp.2) hclient
    | handler => exact congrArg command hhandler
  exact
    { fits := ⟨hclient ▸ h.fits.1, hhandler ▸ h.fits.2⟩
      lock := hlock.trans h.lock
      free := h.free.trans hfree.symm
      waiting := fun t p hp hne => hcommand t ▸ h.waiting t p (hcmd ▸ hp) hne
      command := fun t ht => (hcommand t).trans (h.command t ht)
      cmd := fun t ht => by
        rw [hcmd, h.cmd t ht]
        exact congrArg (fun a : CmdAt => some (a.rest g.txbuf g.rcount)) hplace.symm }

theorem shown_of_reply_eq {g' : Ghost} (can : Can.System) (hholder : g'.holder = g.holder)
    (hreply : g'.progress.transfer.reply? = g.progress.transfer.reply?) :
    g'.shown can = g.shown can := by
  unfold Ghost.shown
  rw [hholder, hreply]

theorem step_server (h : Inv g s) (hstep : s.stepServer code = some s') :
    ∃ g', Inv g' s' ∧ Matches (code < 0) (g.shown s.can) (g'.shown s'.can) := by
  obtain ⟨holder, txbuf, rcount, p, ia⟩ := g
  unfold System.stepServer at hstep
  split at hstep
  · split at hstep
    · rename_i hrpc
      obtain rfl := Option.some.inj hstep
      cases p <;> cases h.spi.rpc.symm.trans hrpc
      refine ⟨⟨holder, txbuf, rcount, .serving .asked .pending, ia⟩, ⟨?_, ?_⟩,
        .stutter (shown_of_reply_eq _ rfl rfl)⟩
      · exact canSide_congr h.can rfl rfl rfl rfl rfl (Iff.intro nofun nofun) rfl
      · exact { h.spi with rpc := rfl, server := rfl, legal := ⟨trivial, trivial⟩ }
    · cases hstep
  · rename_i hserver
    obtain rfl := Option.some.inj hstep
    cases p <;> try cases h.spi.server.symm.trans hserver
    rename_i ret a x
    have hrest := Option.some.inj (h.spi.server.symm.trans hserver)
    cases a <;> cases hrest
    have hallows := h.spi.legal.1
    cases x <;> first | exact hallows.elim | skip
    rename_i reply
    refine ⟨⟨holder, txbuf, rcount, .returned ret reply, ia⟩, ⟨?_, ?_⟩,
      .stutter (shown_of_reply_eq _ rfl rfl)⟩
    · exact canSide_congr h.can rfl rfl rfl rfl rfl (Iff.intro nofun nofun) rfl
    · exact { h.spi with rpc := rfl, server := rfl, legal := trivial }
  · rename_i o k hserver
    obtain ⟨⟨r, d'⟩, hexec, rfl⟩ := Option.map_eq_some_iff.1 hstep
    cases p <;> try cases h.spi.server.symm.trans hserver
    rename_i a x
    have hrest := Option.some.inj (h.spi.server.symm.trans hserver)
    obtain ⟨a', hk, hmoves⟩ := ServerAt.moves_of_exec hrest hexec
    obtain ⟨x', hspi, hreply, -⟩ := h.spi.moves_server hmoves
    refine ⟨⟨holder, txbuf, rcount, .serving a' x', ia⟩, ⟨?_, hk ▸ hspi⟩, ?_⟩
    · exact canSide_congr h.can rfl rfl rfl rfl rfl (Iff.intro nofun nofun) rfl
    · obtain hreply | ⟨hcode, hnone, reply, hsome⟩ := hreply
      · exact .stutter (shown_of_reply_eq _ rfl hreply)
      · -- the transfer has been refused
        cases holder with
        | none => exact .stutter rfl
        | some t =>
            simp only [Ghost.shown, Progress.transfer, hnone, hsome]
            exact .lost hcode (h.can.command t rfl) (hspi.length reply hsome) rfl

theorem step_interrupt (h : Inv g s) (hstep : s.stepInterrupt code = some s') :
    ∃ g', Inv g' s' ∧ g'.shown s'.can = g.shown s.can := by
  obtain ⟨holder, txbuf, rcount, p, ia⟩ := g
  unfold System.stepInterrupt at hstep
  split at hstep
  · rename_i hinterrupt
    obtain rfl := Option.some.inj hstep
    have hidle : ia = .idle := by
      cases ia <;> first | rfl | cases h.spi.interrupt.symm.trans hinterrupt
    subst hidle
    refine ⟨⟨holder, txbuf, rcount, p, .called⟩, ⟨?_, h.spi.start_interrupt⟩,
      shown_of_reply_eq _ rfl rfl⟩
    exact canSide_congr h.can rfl rfl rfl rfl rfl Iff.rfl rfl
  · rename_i o k hinterrupt
    obtain ⟨⟨r, d'⟩, hexec, rfl⟩ := Option.map_eq_some_iff.1 hstep
    obtain ⟨ia', hk, hmoves⟩ :=
      InterruptAt.moves_of_exec (h.spi.interrupt.symm.trans hinterrupt) hexec
    obtain ⟨p', hspi, hplace, hreply, hfree, -⟩ := h.spi.moves_interrupt hmoves
    refine ⟨⟨holder, txbuf, rcount, p', ia'⟩, ⟨?_, hk ▸ hspi⟩, shown_of_reply_eq _ rfl hreply⟩
    exact canSide_congr h.can rfl rfl rfl rfl hplace hfree rfl

/-- The exchange of a command is its step. -/
theorem step_exchange {echo : ℕ → BitVec 8} (h : Inv g s) (hstep : s.stepExchange echo = some s') :
    ∃ g', Inv g' s' ∧ Matches False (g.shown s.can) (g'.shown s'.can) := by
  obtain ⟨holder, txbuf, rcount, p, ia⟩ := g
  unfold System.stepExchange at hstep
  split at hstep
  · rename_i source wcount rcount' hbus
    obtain rfl := Option.some.inj hstep
    cases p <;> try cases h.spi.bus.symm.trans hbus
    rename_i a x
    cases x <;> cases h.spi.bus.symm.trans hbus
    cases holder with
    | none => cases h.can.free.1 rfl
    | some t =>
        have hcmd := h.can.command t rfl
        have hlen : (s.can.driver.chip.spi txbuf rcount).1.length = rcount :=
          (fits_command h.can.fits hcmd).2 _
        have hsent := h.spi.outgoing_eq
        simp only [hsent]
        refine ⟨⟨some t, txbuf, rcount, .serving a (.exchanged echo _), ia⟩,
          ⟨?_, h.spi.exchange echo _ hlen⟩, matches_exchange hcmd⟩
        exact canSide_congr h.can rfl rfl rfl rfl rfl (Iff.intro nofun nofun) rfl
  · cases hstep

/-- A step of the CAN component outside of the commands is the same step with the replies in. -/
theorem step_beside {a : Can.Act} {can : Can.System} (h : Inv g s) (hmoves : s.can.Moves a can)
    (hidle : ∀ t, a = t.act → s.cmd t = none) :
    Inv g { s with can := can } ∧ (g.shown s.can).Moves a (g.shown can) := by
  have hact : ∀ t p, s.cmd t = some p → a ≠ t.act := fun t p hp ha =>
    Option.some_ne_none p (hp.symm.trans (hidle t ha))
  have hanswer : ∀ t p cmd reply, s.cmd t = some p → commandOf s.can t = some cmd →
      commandOf can t = some cmd ∧ (answer s.can reply t).Moves a (answer can reply t) :=
    fun t p cmd reply hp hcmd => moves_answer reply hcmd (hact t p hp) hmoves
  refine ⟨⟨?_, { h.spi with }⟩, ?_⟩
  · exact
      { h.can with
        fits := h.can.fits.moves fits_body fits_irqHandler hmoves
        waiting := fun t p hp hne => by
          obtain ⟨txbuf, rcount, hcmd, htransact⟩ := h.can.waiting t p hp hne
          exact ⟨txbuf, rcount, (hanswer t p _ [] hp hcmd).1, htransact⟩
        command := fun t ht => (hanswer t _ _ [] (h.can.cmd t ht) (h.can.command t ht)).1 }
  · unfold Ghost.shown
    split
    · rename_i t reply hholder hreply
      exact (hanswer t _ _ reply (h.can.cmd t hholder) (h.can.command t hholder)).2
    · exact hmoves

/-! ## Steps of a command -/

theorem resume_rest (t : Tid) (txbuf : List (BitVec 8)) (rcount : ℕ) {a : CmdAt}
    (ha : ∀ reply, a ≠ .done reply) :
    s.resume t (a.rest txbuf rcount) =
      { s with cmd := Function.update s.cmd t (some (a.rest txbuf rcount)) } := by
  obtain ⟨o, k, hrest⟩ := CmdAt.exists_call_rest txbuf rcount ha
  rw [hrest]
  rfl

theorem place_ne_done (p : Progress) (reply : List (BitVec 8)) : p.place ≠ .done reply := by
  cases p <;> exact nofun

/-- What a step of the command with the lock does: it goes on, or it ends with its reply. -/
theorem moves_holder {t : Tid} {txbuf : List (BitVec 8)} {rcount : ℕ} {p : Progress}
    {ia : InterruptAt} {a' : CmdAt} {s₁ : System} (h : Inv ⟨some t, txbuf, rcount, p, ia⟩ s)
    (hmoves : CmdAt.Moves txbuf rcount s p.place a' s₁)
    (hs' : s' = s₁.resume t (a'.rest txbuf rcount)) :
    (∀ t', t' ≠ t → s'.cmd t' = s.cmd t') ∧
      ((∃ p', Inv ⟨some t, txbuf, rcount, p', ia⟩ s' ∧ s'.can = s.can ∧
          p'.transfer.reply? = p.transfer.reply? ∧
          p'.left txbuf.length rcount < p.left txbuf.length rcount) ∨
        ∃ reply, p.transfer.reply? = some reply ∧ Inv ⟨none, txbuf, rcount, .free, ia⟩ s' ∧
          s'.can = answer s.can reply t ∧ s'.cmd t = none) := by
  by_cases hdone : ∃ bytes, a' = .done bytes
  · obtain ⟨bytes, rfl⟩ := hdone
    generalize hplace : p.place = a at hmoves
    cases hmoves with
    | unlock hlen =>
        subst hs'
        obtain ⟨hreply, hspi⟩ := h.spi.unlock hplace hlen
        refine ⟨fun t' hne => Function.update_of_ne hne ..,
          .inr ⟨bytes, hreply, ⟨?_, { hspi with }⟩, rfl, Function.update_self ..⟩⟩
        refine
          { fits := every_answer h.can.fits bytes t
            lock := rfl
            free := iff_of_true rfl rfl
            waiting := fun t' p' hp' _ => ?_
            command := nofun
            cmd := nofun }
        have hne : t' ≠ t := by
          rintro rfl
          cases (Function.update_self ..).symm.trans hp'
        have hp : s.cmd t' = some p' := (Function.update_of_ne hne ..).symm.trans hp'
        obtain ⟨tx, r, hcommand, htransact⟩ :=
          h.can.waiting t' p' hp fun ht => hne (Option.some.inj ht).symm
        exact ⟨tx, r, (commandOf_answer_of_ne s.can bytes hne).trans hcommand, htransact⟩
  · have hkeeps : ∀ bytes, a' ≠ .done bytes := fun bytes ha => hdone ⟨bytes, ha⟩
    have hbusy : p ≠ .free := fun hp => Option.some_ne_none t (h.can.free.2 hp)
    obtain ⟨p', hspi, rfl, hbusy', hreply, hcan, hcmds, hlock, hleft⟩ :=
      h.spi.moves_cmd hbusy hmoves hkeeps
    rw [resume_rest t txbuf rcount hkeeps] at hs'
    subst hs'
    have hothers : ∀ cmd t', t' ≠ t → Function.update s₁.cmd t cmd t' = s.cmd t' :=
      fun cmd t' hne => (Function.update_of_ne hne ..).trans (congrFun hcmds t')
    refine ⟨hothers _, .inl ⟨p', ⟨?_, { hspi with }⟩, hcan, hreply, hleft⟩⟩
    refine
      { fits := hcan ▸ h.can.fits
        lock := hlock.trans h.can.lock
        free := iff_of_false nofun hbusy'
        waiting := fun t' q hq hne => ?_
        command := fun t' ht' => ?_
        cmd := fun t' ht' => ?_ }
    · have hq' : s.cmd t' = some q := (hothers _ t' fun h => hne (h ▸ rfl)).symm.trans hq
      have hwaiting := h.can.waiting t' q hq' hne
      rwa [← hcan] at hwaiting
    · have hcommand := h.can.command t' ht'
      rwa [← hcan] at hcommand
    · obtain rfl := Option.some.inj ht'
      exact Function.update_self ..

/-- A step of the thread with the lock. -/
theorem step_holder {t : Tid} (h : Inv g s) (ht : g.holder = some t)
    (hstep : s.stepThread t = some s') :
    ∃ g', Inv g' s' ∧ g'.shown s'.can = g.shown s.can := by
  obtain ⟨holder, txbuf, rcount, p, ia⟩ := g
  subst ht
  obtain ⟨o, k, hrest⟩ := CmdAt.exists_call_rest txbuf rcount (place_ne_done p)
  have hcmd : s.cmd t = some (.call o k) := hrest ▸ h.can.cmd t rfl
  simp only [System.stepThread, hcmd] at hstep
  obtain ⟨⟨r, s₁⟩, hexec, rfl⟩ := Option.map_eq_some_iff.1 hstep
  obtain ⟨a', hk, hmoves⟩ := CmdAt.moves_of_exec hrest hexec
  obtain ⟨-, ⟨p', hinv, hcan, hreply, -⟩ | ⟨reply, hreply, hinv, hcan, -⟩⟩ :=
    h.moves_holder hmoves (congrArg (s₁.resume t) hk)
  · exact ⟨_, hinv, hcan ▸ shown_of_reply_eq _ rfl hreply⟩
  · refine ⟨_, hinv, ?_⟩
    rw [hcan]
    simp only [Ghost.shown, hreply]

/-- A thread without the lock has come to a command, and will ask for the lock. -/
theorem step_begin {t : Tid} {txbuf : List (BitVec 8)} {rcount : ℕ} (h : Inv g s)
    (hcmd : s.cmd t = none) (hcommand : commandOf s.can t = some (txbuf, rcount)) :
    Inv g (s.resume t (transact txbuf rcount)) := by
  have hresume := resume_rest (s := s) t txbuf rcount (a := .asked) nofun
  have ht : g.holder ≠ some t := fun ht =>
    Option.some_ne_none _ ((h.can.cmd t ht).symm.trans hcmd)
  change Inv g (s.resume t (CmdAt.asked.rest txbuf rcount))
  rw [hresume]
  refine ⟨{ h.can with waiting := fun t' p hp hne => ?_, cmd := fun t' ht' => ?_ }, { h.spi with }⟩
  · by_cases heq : t' = t
    · subst heq
      have hp' : some (transact txbuf rcount) = some p :=
        (Function.update_self t' (some (transact txbuf rcount)) s.cmd).symm.trans hp
      exact ⟨txbuf, rcount, hcommand, (Option.some.inj hp').symm⟩
    · exact h.can.waiting t' p ((Function.update_of_ne heq ..).symm.trans hp) hne
  · have hne : t' ≠ t := fun heq => ht (heq ▸ ht')
    exact (Function.update_of_ne hne ..).trans (h.can.cmd t' ht')

theorem holder_of_unlocked (h : Inv g s) (hfree : s.spiLock = false) : g.holder = none := by
  cases hholder : g.holder with
  | none => rfl
  | some t =>
      have hlock := h.can.lock
      rw [hholder, hfree] at hlock
      cases hlock

/-- A thread takes the lock. -/
theorem step_lock {t : Tid} {txbuf : List (BitVec 8)} {rcount : ℕ} (h : Inv g s)
    (hcommand : commandOf s.can t = some (txbuf, rcount)) (hfree : s.spiLock = false) :
    Inv ⟨some t, txbuf, rcount, .storing 0, g.interrupt⟩
      { s with
        spiLock := true
        cmd := Function.update s.cmd t (some ((CmdAt.storing 0).rest txbuf rcount)) } := by
  have hnone := h.holder_of_unlocked hfree
  obtain ⟨holder, txbuf', rcount', p, ia⟩ := g
  subst hnone
  obtain rfl : p = .free := h.can.free.1 rfl
  refine ⟨?_, { h.spi with legal := Nat.zero_le _, text := nofun, length := nofun, kept := nofun }⟩
  refine
    { fits := h.can.fits
      lock := rfl
      free := iff_of_false nofun nofun
      waiting := fun t' q hq hne => ?_
      command := fun t' ht' => ?_
      cmd := fun t' ht' => ?_ }
  · have hne' : t' ≠ t := fun heq => hne (heq ▸ rfl)
    exact h.can.waiting t' q ((Function.update_of_ne hne' ..).symm.trans hq) nofun
  · obtain rfl := Option.some.inj ht'
    exact hcommand
  · obtain rfl := Option.some.inj ht'
    exact Function.update_self ..

/-- A step of a thread without the lock. -/
theorem step_other {t : Tid} (h : Inv g s) (ht : g.holder ≠ some t)
    (hstep : s.stepThread t = some s') :
    ∃ g', Inv g' s' ∧ Matches False (g.shown s.can) (g'.shown s'.can) := by
  unfold System.stepThread at hstep
  split at hstep
  · rename_i hcmd
    split at hstep
    · rename_i txbuf rcount hcommand
      obtain rfl := Option.some.inj hstep
      exact ⟨g, h.step_begin hcmd hcommand, .stutter rfl⟩
    · obtain ⟨can, hcan, rfl⟩ := Option.map_eq_some_iff.1 hstep
      have hmoves := Can.System.moves_of_step hcan
      obtain ⟨hinv, hmoves'⟩ := h.step_beside hmoves fun t' ha => by
        have heq : t = t' := by
          cases t <;> cases t' <;> first | rfl | cases ha
        exact heq ▸ hcmd
      exact ⟨g, hinv, .step t.act hmoves'⟩
  · cases hstep
  · rename_i o k hcmd
    obtain ⟨txbuf, rcount, hcommand, htransact⟩ := h.can.waiting t _ hcmd ht
    obtain ⟨⟨r, s₁⟩, hexec, rfl⟩ := Option.map_eq_some_iff.1 hstep
    obtain ⟨a', hk, hmoves⟩ := CmdAt.moves_of_exec (a := .asked) htransact.symm hexec
    cases hmoves with
    | lock hfree =>
        simp only [hk]
        rw [resume_rest t txbuf rcount (CmdAt.storing_ne_done 0)]
        refine ⟨⟨some t, txbuf, rcount, .storing 0, g.interrupt⟩,
          h.step_lock hcommand hfree, .stutter ?_⟩
        simp only [Ghost.shown, h.holder_of_unlocked hfree, Progress.transfer, Transfer.reply?]

end Inv

/-! ## Any step -/

/-- The bus driver refuses, if it is asked for a transfer. -/
def Act.Refuses : Act → Prop
  | .server code => code < 0
  | _ => False

theorem Matches.mono {P Q : Prop} {can can' : Can.System} (h : Matches P can can') (hPQ : P → Q) :
    Matches Q can can' := by
  cases h with
  | stutter h => exact .stutter h
  | step a h => exact .step a h
  | lost hP hcmd hlen h => exact .lost (hPQ hP) hcmd hlen h

theorem Inv.step {g : Ghost} {s s' : System} {a : Act} (h : Inv g s) (hstep : s.step a = some s') :
    ∃ g', Inv g' s' ∧ Matches a.Refuses (g.shown s.can) (g'.shown s'.can) := by
  have houter : ∀ {b : Can.Act}, (∀ t : Tid, b ≠ t.act) →
      (s.can.step b).map (fun can => { s with can := can }) = some s' →
        ∃ g', Inv g' s' ∧ Matches a.Refuses (g.shown s.can) (g'.shown s'.can) := by
    intro b hb hstep
    obtain ⟨can, hcan, rfl⟩ := Option.map_eq_some_iff.1 hstep
    obtain ⟨hinv, hmoves⟩ :=
      h.step_beside (Can.System.moves_of_step hcan) fun t ht => absurd ht (hb t)
    exact ⟨g, hinv, .step b hmoves⟩
  cases a with
  | call c => exact houter (fun t => by cases t <;> exact nofun) hstep
  | irq frame => exact houter (fun t => by cases t <;> exact nofun) hstep
  | chip e => exact houter (fun t => by cases t <;> exact nofun) hstep
  | thread t =>
      by_cases ht : g.holder = some t
      · obtain ⟨g', hinv, hshown⟩ := h.step_holder ht hstep
        exact ⟨g', hinv, .stutter hshown⟩
      · obtain ⟨g', hinv, hmatches⟩ := h.step_other ht hstep
        exact ⟨g', hinv, hmatches.mono False.elim⟩
  | server code => exact h.step_server hstep
  | interrupt code =>
      obtain ⟨g', hinv, hshown⟩ := h.step_interrupt hstep
      exact ⟨g', hinv, .stutter hshown⟩
  | exchange echo =>
      obtain ⟨g', hinv, hmatches⟩ := h.step_exchange hstep
      exact ⟨g', hinv, hmatches.mono False.elim⟩

/-! ## Runs -/

/-- Nothing is under way. -/
def Ghost.free : Ghost := ⟨none, [], 0, .free, .idle⟩

theorem run_spiInit (txbuf rxbuf : ℕ → BitVec 8) (status code : ℤ) :
    spiInit.run (exec code) (Component.boot txbuf rxbuf status) =
      some ((), { Component.boot txbuf rxbuf status with busSem := 0 }) := rfl

/-- The start, with the CAN component at rest. -/
theorem inv_starts {can : Can.System} {s : System} (hrest : can.AtRest) (h : s.Starts can) :
    Inv .free s ∧ s.can = can := by
  obtain ⟨txbuf, rxbuf, status, code, spi, hrun, rfl⟩ := h
  obtain rfl := (Prod.mk.inj (Option.some.inj hrun)).2
  refine ⟨⟨?_, ?_⟩, rfl⟩
  · exact
      { fits := Can.System.every_of_atRest hrest
        lock := rfl
        free := iff_of_true rfl rfl
        waiting := nofun
        command := nofun
        cmd := nofun }
  · have hne : (-1 : ℤ) ≠ canAppId := by decide
    exact
      { rpc := rfl
        server := rfl
        interrupt := rfl
        mutex := rfl
        exclusive := rfl
        bus := rfl
        busSem := rfl
        completes := rfl
        cfg := fun hcur => absurd hcur hne
        legal := trivial
        text := nofun
        length := nofun
        kept := nofun }

namespace System

/-- What one can see of the CAN component: the driver, the history, and the threads that are outside
of their commands. -/
structure Shows (s : System) (can : Can.System) : Prop where
  driver : can.driver = s.can.driver
  history : can.history = s.can.history
  client : s.cmd .client = none → can.client = s.can.client
  handler : s.cmd .handler = none → can.handler = s.can.handler

theorem shows_shown {g : Ghost} {s : System} (h : Inv g s) : s.Shows (g.shown s.can) := by
  unfold Ghost.shown
  split
  · rename_i t reply hholder _
    have hcmd := h.can.cmd t hholder
    cases t with
    | client => exact ⟨rfl, rfl, fun hnone => (Option.some_ne_none _ (hcmd.symm.trans hnone)).elim,
        fun _ => rfl⟩
    | handler => exact ⟨rfl, rfl, fun _ => rfl,
        fun hnone => (Option.some_ne_none _ (hcmd.symm.trans hnone)).elim⟩
  · exact ⟨rfl, rfl, fun _ => rfl, fun _ => rfl⟩

/-- The steps where the bus driver accepts every transfer. -/
def StepAccepted (s : System) (a : Act) (_ : Unit) (s' : System) : Prop :=
  s.step a = some s' ∧ ¬ a.Refuses

/-- The CAN component on a bus that may lose a command: its thread goes on with any bytes. -/
def StepLossy (can : Can.System) (a : Option Can.Act) (_ : Unit) (can' : Can.System) : Prop :=
  match a with
  | some a => can.step a = some can'
  | none => ∃ t txbuf rcount reply, commandOf can t = some (txbuf, rcount) ∧
      reply.length = rcount ∧ can' = answer can reply t

open Transition

/-- Whatever the bus driver does, the invariant holds. -/
theorem inv_of_reachable {can₀ : Can.System} (hrest : can₀.AtRest) {s : System}
    (h : Reachable Step (Starts can₀) s) : ∃ g, Inv g s := by
  refine h.invariant (I := fun s => ∃ g, Inv g s) (fun s hs => ⟨.free, (inv_starts hrest hs).1⟩) ?_
  rintro s a _ s' ⟨g, hinv⟩ hstep
  obtain ⟨g', hinv', -⟩ := hinv.step hstep
  exact ⟨g', hinv'⟩

/-! A first command: the flags for the interrupt handler of the CAN component. -/

/-- The start from a CAN component, with buffers of zeros. -/
def early (can : Can.System) : System :=
  atRest can { Component.boot (fun _ => 0) (fun _ => 0) 0 with busSem := 0 }

theorem starts_early (can : Can.System) : Starts can (early can) :=
  ⟨_, _, _, 0, _, run_spiInit _ _ _ _, rfl⟩

/-- Right after `can__init` and `spi__init`. -/
def first : System := early (Can.System.booted ⟨fun _ => 0⟩ fun _ => .bare 0)

/-- The handler asks for the flags, and the call is served up to `spi_xfer`. -/
def askFlags : List Act :=
  .irq (.bare 0) :: List.replicate 5 (.thread .handler) ++ List.replicate 5 (.server 0)

/-- The transfer takes place, and the call returns. -/
def getFlags : List Act :=
  [.server 0, .server 0, .exchange fun _ => 0] ++ List.replicate 5 (.interrupt 0) ++
    List.replicate 3 (.server 0) ++ [.thread .handler]

/-- The transfer is refused, and the handler goes on all the same. -/
def loseFlags : List Act :=
  [.server (-1), .server 0, .server 0] ++ List.replicate 3 (.thread .handler)

theorem reachable_foldlM_step {can : Can.System} {s : System} {acts : List Act}
    (hrun : acts.foldlM step (early can) = some s) : Reachable Step (Starts can) s :=
  Reachable.foldlM hrun (.of_init (starts_early can))

/-- How the bus is used: what the bus driver is promised when it is asked for a transfer, what the
semaphore says, and what goes out. -/
structure Disciplined (s : System) : Prop where
  asked : ∀ source wcount rcount k, s.server = some (.call (.spiXfer source wcount rcount) k) →
    s.spi.bus = .idle ∧ source = .port ∧ wcount + rcount ≤ spiTransMaxSize ∧
      s.spi.cfg = some canSlave.cfg ∧ s.spi.busSem = 0
  posted : ∀ k, s.interrupt = .call .busSemPost k →
    s.spi.busSem = 0 ∧ ∃ k', s.server = some (.call .busSemWait k')
  woken : s.spi.busSem = 0 ∨ s.spi.busSem = 1 ∧ ∃ k', s.server = some (.call .busSemWait k')
  exclusive : ∀ source wcount rcount k k',
    s.server = some (.call (.spiXfer source wcount rcount) k) → s.interrupt ≠ .call .spiHandleIrq k'
  sent : ∀ source wcount rcount, s.spi.bus = .shifting source wcount rcount →
    ∃ t txbuf, s.spiLock = true ∧ commandOf s.can t = some (txbuf, rcount) ∧
      s.spi.outgoing wcount source = txbuf

/-- Whatever the bus driver answers, it is asked for a transfer only when the bus is idle and ready
for the slave, each transfer that ends wakes the thread that waits for it, and only that one, and
what goes out is the whole command of a thread. -/
theorem disciplined {can₀ : Can.System} (hrest : can₀.AtRest) {s : System}
    (h : Reachable Step (Starts can₀) s) : s.Disciplined := by
  obtain ⟨⟨holder, txbuf, rcount, p, ia⟩, hcan, hspi⟩ := inv_of_reachable hrest h
  have hserver := hspi.server
  have hinterrupt := hspi.interrupt
  have hsem := hspi.busSem
  refine ⟨?_, ?_, ?_, ?_, ?_⟩
  · intro source wcount' rcount' k hxfer
    cases p <;> try cases hserver.symm.trans hxfer
    rename_i a x
    cases a <;> cases hserver.symm.trans hxfer
    have hallows := hspi.legal.1
    cases x <;> first | exact hallows.elim | skip
    cases holder with
    | none => cases hcan.free.1 rfl
    | some t =>
        have hsize := (fits_command hcan.fits (hcan.command t rfl)).1
        exact ⟨hspi.bus, rfl, hsize, hspi.cfg hspi.legal.2, hsem⟩
  · intro k hpost
    have hcompletes := hspi.completes
    cases ia <;> cases hinterrupt.symm.trans hpost
    cases p <;> try cases hcompletes
    rename_i a x
    have hallows := hspi.legal.1
    cases x <;> try cases hcompletes
    cases a <;> first | exact hallows.elim | exact ⟨hsem, _, hserver⟩
  · cases p <;> try exact .inl hsem
    rename_i a x
    have hallows := hspi.legal.1
    cases x <;> try exact .inl hsem
    cases a <;> first | exact hallows.elim | exact .inr ⟨hsem, _, hserver⟩
  · intro source wcount' rcount' k k' hxfer hirq
    have hexclusive := hspi.exclusive
    cases p <;> try cases hserver.symm.trans hxfer
    rename_i a x
    cases a <;> cases hserver.symm.trans hxfer
    cases ia <;> cases hinterrupt.symm.trans hirq
    cases hexclusive
  · intro source wcount' rcount' hbus
    cases p <;> try cases hspi.bus.symm.trans hbus
    rename_i a x
    cases x <;> cases hspi.bus.symm.trans hbus
    cases holder with
    | none => cases hcan.free.1 rfl
    | some t => exact ⟨t, txbuf, hcan.lock, hcan.command t rfl, hspi.outgoing_eq⟩

theorem disciplined_askFlags :
    ∃ s, askFlags.foldlM step first = some s ∧ s.spi.spiMutex = true ∧ s.Disciplined := by
  have hmutex : (askFlags.foldlM step first).map (fun s => s.spi.spiMutex) = some true := rfl
  obtain ⟨s, hrun, hmutex⟩ := Option.map_eq_some_iff.1 hmutex
  exact ⟨s, hrun, hmutex, disciplined ⟨rfl, rfl⟩ (reachable_foldlM_step hrun)⟩

/-- If the bus driver accepts every transfer, what is shown is reachable by single steps. -/
theorem shown_of_accepted {can₀ : Can.System} (hrest : can₀.AtRest) {s : System}
    (h : Reachable StepAccepted (Starts can₀) s) :
    ∃ g, Inv g s ∧ Reachable Can.System.Step (· = can₀) (g.shown s.can) := by
  have hrefines : ∃ can, Reachable Can.System.Step (· = can₀) can ∧
      ∃ g, Inv g s ∧ can = g.shown s.can := by
    refine h.refines (R := fun s can => ∃ g, Inv g s ∧ can = g.shown s.can) ?_ ?_
    · intro s hs
      obtain ⟨hinv, hcan⟩ := inv_starts hrest hs
      exact ⟨s.can, hcan, .free, hinv, rfl⟩
    · rintro s can a _ s' ⟨g, hinv, rfl⟩ ⟨hstep, haccepted⟩
      obtain ⟨g', hinv', hmatches⟩ := hinv.step hstep
      refine ⟨_, ⟨g', hinv', rfl⟩, ?_⟩
      cases hmatches with
      | stutter h => exact .inl h
      | step a h => exact .inr ⟨a, (), Can.System.step_of_moves h⟩
      | lost hrefuses => exact absurd hrefuses haccepted
  obtain ⟨_, hcan, g, hinv, rfl⟩ := hrefines
  exact ⟨g, hinv, hcan⟩

/-- The small steps of commands and transfers, in whatever order, lead only where the SPI
transactions as single steps lead. -/
theorem atomic_of_accepted {can₀ : Can.System} (hrest : can₀.AtRest) {s : System}
    (h : Reachable StepAccepted (Starts can₀) s) :
    ∃ can, Reachable Can.System.Step (· = can₀) can ∧ s.Shows can := by
  obtain ⟨g, hinv, hcan⟩ := shown_of_accepted hrest h
  exact ⟨_, hcan, shows_shown hinv⟩

instance : DecidablePred Act.Refuses := fun a =>
  match a with
  | .server code => inferInstanceAs (Decidable (code < 0))
  | .call _ | .irq _ | .chip _ | .thread _ | .interrupt _ | .exchange _ => .isFalse id

theorem reachable_foldlM_accepted {can : Can.System} {s : System} {acts : List Act}
    (hrun : acts.foldlM (fun s a => if a.Refuses then none else s.step a) (early can) = some s) :
    Reachable StepAccepted (Starts can) s := by
  refine Reachable.foldlM_of (fun s a s' hstep => ?_) hrun (.of_init (starts_early can))
  obtain ⟨haccepted, hstep⟩ := Option.ite_none_left_eq_some.1 hstep
  exact ⟨(), hstep, haccepted⟩

/-- The reply is in the buffer, and the handler has yet to read it. -/
theorem atomic_of_accepted_getFlags :
    ∃ s, (askFlags ++ getFlags).foldlM (fun s a => if a.Refuses then none else s.step a) first =
        some s ∧ s.spiLock = true ∧
      ∃ can, Reachable Can.System.Step (· = first.can) can ∧ s.Shows can := by
  have hlock : ((askFlags ++ getFlags).foldlM
      (fun s a => if Act.Refuses a then none else step s a) first).map (fun s => s.spiLock) =
        some true := rfl
  obtain ⟨s, hrun, hlock⟩ := Option.map_eq_some_iff.1 hlock
  exact ⟨s, hrun, hlock, atomic_of_accepted ⟨rfl, rfl⟩ (reachable_foldlM_accepted hrun)⟩

/-- Whatever the bus driver does, what is shown is reachable by single steps and losses. -/
theorem shown_or_lost {can₀ : Can.System} (hrest : can₀.AtRest) {s : System}
    (h : Reachable Step (Starts can₀) s) :
    ∃ g, Inv g s ∧ Reachable StepLossy (· = can₀) (g.shown s.can) := by
  have hrefines : ∃ can, Reachable StepLossy (· = can₀) can ∧
      ∃ g, Inv g s ∧ can = g.shown s.can := by
    refine h.refines (R := fun s can => ∃ g, Inv g s ∧ can = g.shown s.can) ?_ ?_
    · intro s hs
      obtain ⟨hinv, hcan⟩ := inv_starts hrest hs
      exact ⟨s.can, hcan, .free, hinv, rfl⟩
    · rintro s can a _ s' ⟨g, hinv, rfl⟩ hstep
      obtain ⟨g', hinv', hmatches⟩ := hinv.step hstep
      refine ⟨_, ⟨g', hinv', rfl⟩, ?_⟩
      cases hmatches with
      | stutter h => exact .inl h
      | step a h => exact .inr ⟨some a, (), Can.System.step_of_moves h⟩
      | lost _ hcmd hlen h => exact .inr ⟨none, (), _, _, _, _, hcmd, hlen, h⟩
  obtain ⟨_, hcan, g, hinv, rfl⟩ := hrefines
  exact ⟨g, hinv, hcan⟩

/-- Whatever the bus driver does, a command takes place once or not at all. -/
theorem atomic_or_lost {can₀ : Can.System} (hrest : can₀.AtRest) {s : System}
    (h : Reachable Step (Starts can₀) s) :
    ∃ can, Reachable StepLossy (· = can₀) can ∧ s.Shows can := by
  obtain ⟨g, hinv, hcan⟩ := shown_or_lost hrest h
  exact ⟨_, hcan, shows_shown hinv⟩

theorem atomic_or_lost_loseFlags :
    ∃ s, (askFlags ++ loseFlags).foldlM step first = some s ∧ s.spiLock = false ∧
      ∃ can, Reachable StepLossy (· = first.can) can ∧ s.Shows can := by
  have hlock : ((askFlags ++ loseFlags).foldlM step first).map (fun s => s.spiLock) =
    some false := rfl
  obtain ⟨s, hrun, hlock⟩ := Option.map_eq_some_iff.1 hlock
  exact ⟨s, hrun, hlock, atomic_or_lost ⟨rfl, rfl⟩ (reachable_foldlM_step hrun)⟩

end System

end Spi
end Tk1Bsp
