import Tk1Bsp.Spi.Atomicity

/-!
# Every command can be brought to its end

No order of the small steps leads to a state in which a command is stuck: from every state, the
thread with `spi_lock` can be brought to the end of its command by steps of its own, of the threads
of the SPI component and of the bus (`Inv.finish`), and then the other thread, if it waits for the
lock (`Inv.quiesce`).  The argument is a measure: some thread can always take a step that brings the
command nearer to its end (`Inv.toward`), and where that is the thread that serves the call, the
interrupt handler first has to leave `spi_mutex`.

Together with what is known about the outcome of a command, this is the other half of atomicity:
whatever SPI transactions as single steps lead to, the small steps can lead to as well.
-/

namespace Tk1Bsp
namespace Spi

open Transition

/-! ## A measure -/

/-- How many steps the interrupt handler is from where it is needed: in a transfer whose bytes have
been exchanged at `spi_handle_irq`, and else outside of `spi_mutex`. -/
def InterruptAt.left : Transfer → InterruptAt → ℕ
  | .exchanged _ _, .leaving => 4
  | .exchanged _ _, .acknowledging => 3
  | .exchanged _ _, .idle => 2
  | .exchanged _ _, .called => 1
  | .exchanged _ _, .entered => 0
  | _, .storing _ => 3
  | _, .posting => 2
  | _, .entered => 2
  | _, .leaving => 1
  | _, _ => 0

theorem InterruptAt.holds_of_completes {a : InterruptAt} (h : a.completes = true) :
    a.holds = true := by
  cases a <;> first | rfl | cases h

theorem InterruptAt.left_le (x : Transfer) (a : InterruptAt) : a.left x ≤ 4 := by
  cases x <;> cases a <;> simp [InterruptAt.left]

/-- How far the command with the lock is from its end. -/
def Ghost.left (g : Ghost) : ℕ :=
  5 * g.progress.left g.txbuf.length g.rcount + g.interrupt.left g.progress.transfer

theorem Ghost.left_lt_of_progress {g g' : Ghost}
    (h : g'.progress.left g'.txbuf.length g'.rcount < g.progress.left g.txbuf.length g.rcount) :
    g'.left < g.left := by
  have hle := InterruptAt.left_le g'.progress.transfer g'.interrupt
  unfold Ghost.left
  omega

/-- The CAN component after the command with the lock, which thread `t` has. -/
def Ghost.outcome (g : Ghost) (can : Can.System) (t : Tid) : Can.System :=
  match g.progress.transfer.reply? with
  | some reply => answer can reply t
  | none =>
      answer (exchanged can g.txbuf g.rcount) (can.driver.chip.spi g.txbuf g.rcount).1 t

theorem Ghost.outcome_congr {g g' : Ghost} (can : Can.System) (t : Tid)
    (htxbuf : g'.txbuf = g.txbuf) (hrcount : g'.rcount = g.rcount)
    (hreply : g'.progress.transfer.reply? = g.progress.transfer.reply?) :
    g'.outcome can t = g.outcome can t := by
  unfold Ghost.outcome
  rw [htxbuf, hrcount, hreply]

/-! ## Steps towards the end -/

/-- A step of the threads of the two components or of the bus. -/
def Act.Inner : Act → Prop
  | .call _ | .irq _ | .chip _ => False
  | _ => True

/-- A step that brings the command of thread `t` nearer to its end, or ends it. -/
structure Nearer (t : Tid) (g : Ghost) (s : System) (g' : Ghost) (s' : System) : Prop where
  step : ∃ a : Act, a.Inner ∧ System.StepAccepted s a () s'
  inv : Inv g' s'
  others : ∀ t', t' ≠ t → s'.cmd t' = s.cmd t'
  next : (g'.holder = some t ∧ g'.left < g.left ∧ g'.outcome s'.can t = g.outcome s.can t) ∨
    (g'.holder = none ∧ s'.cmd t = none ∧ s'.can = g.outcome s.can t)

section Toward

variable {t : Tid} {txbuf : List (BitVec 8)} {rcount : ℕ} {p : Progress} {ia : InterruptAt}
  {s : System}

theorem toward_server {a a' : ServerAt} {x : Transfer} {d' : Component}
    (h : Inv ⟨some t, txbuf, rcount, .serving a x, ia⟩ s)
    (hmoves : ServerAt.Moves 0 txbuf.length rcount s.spi a a' d') :
    ∃ g' s', Nearer t ⟨some t, txbuf, rcount, .serving a x, ia⟩ s g' s' := by
  obtain ⟨x', hspi, hreply, hleft⟩ := h.spi.moves_server hmoves
  obtain ⟨o, k, r, hrest, hexec, hk⟩ := ServerAt.exec_of_moves hmoves
  have hserver : s.server = some (.call o k) := hrest ▸ h.spi.server
  have hreply' : x'.reply? = x.reply? := hreply.resolve_right fun hr => absurd hr.1 (by decide)
  refine ⟨⟨some t, txbuf, rcount, .serving a' x', ia⟩, _,
    ⟨.server 0, trivial, ?_, fun hrefuses : (0 : ℤ) < 0 => absurd hrefuses (by decide)⟩, ⟨?_, hspi⟩,
    fun _ _ => rfl, .inl ⟨rfl, Ghost.left_lt_of_progress (Nat.add_lt_add_left hleft _),
      Ghost.outcome_congr _ t rfl rfl hreply'⟩⟩
  · simp only [System.step, System.stepServer, hserver, hexec, Option.map_some, hk]
  · exact Inv.canSide_congr h.can rfl rfl rfl rfl rfl (Iff.intro nofun nofun) rfl

theorem toward_interrupt {ia' : InterruptAt} {d' : Component}
    (h : Inv ⟨some t, txbuf, rcount, p, ia⟩ s) (hmoves : InterruptAt.Moves 0 s.spi ia ia' d')
    (hleft : ia'.completes = ia.completes → ia'.left p.transfer < ia.left p.transfer) :
    ∃ g' s', Nearer t ⟨some t, txbuf, rcount, p, ia⟩ s g' s' := by
  obtain ⟨p', hspi, hplace, hreply, hfree, hp⟩ := h.spi.moves_interrupt hmoves
  obtain ⟨o, k, r, hrest, hexec, hk⟩ := InterruptAt.exec_of_moves hmoves
  have hinterrupt : s.interrupt = .call o k := h.spi.interrupt.trans hrest
  refine ⟨⟨some t, txbuf, rcount, p', ia'⟩, _, ⟨.interrupt 0, trivial, ?_, False.elim⟩, ⟨?_, hspi⟩,
    fun _ _ => rfl, .inl ⟨rfl, ?_, Ghost.outcome_congr _ t rfl rfl hreply⟩⟩
  · simp only [System.step, System.stepInterrupt, hinterrupt, hexec, Option.map_some, hk]
  · exact Inv.canSide_congr h.can rfl rfl rfl rfl hplace hfree rfl
  · rcases hp with rfl | hp
    · have hcompletes : ia'.completes = ia.completes := hspi.completes.trans h.spi.completes.symm
      exact Nat.add_lt_add_left (hleft hcompletes) _
    · exact Ghost.left_lt_of_progress hp

theorem toward_cmd {a' : CmdAt} {s₁ : System} (h : Inv ⟨some t, txbuf, rcount, p, ia⟩ s)
    (hmoves : CmdAt.Moves txbuf rcount s p.place a' s₁) :
    ∃ g' s', Nearer t ⟨some t, txbuf, rcount, p, ia⟩ s g' s' := by
  obtain ⟨o, k, r, hrest, hexec, hk⟩ := CmdAt.exec_of_moves hmoves
  have hcmd : s.cmd t = some (.call o k) := hrest ▸ h.can.cmd t rfl
  have hstep : System.StepAccepted s (.thread t) () (s₁.resume t (a'.rest txbuf rcount)) := by
    refine ⟨?_, False.elim⟩
    simp only [System.step, System.stepThread, hcmd, hexec, Option.map_some, hk]
  obtain ⟨hothers, ⟨p', hinv, hcan, hreply, hleft⟩ | ⟨reply, hreply, hinv, hcan, hnone⟩⟩ :=
    h.moves_holder hmoves rfl
  · refine ⟨_, _, ⟨.thread t, trivial, hstep⟩, hinv, hothers,
      .inl ⟨rfl, Ghost.left_lt_of_progress hleft, ?_⟩⟩
    rw [hcan]
    exact Ghost.outcome_congr _ t rfl rfl hreply
  · refine ⟨_, _, ⟨.thread t, trivial, hstep⟩, hinv, hothers, .inr ⟨rfl, hnone, ?_⟩⟩
    rw [hcan]
    simp only [Ghost.outcome, hreply]

/-- The interrupt handler leaves `spi_mutex`, or finishes the transfer. -/
theorem toward_leaving (h : Inv ⟨some t, txbuf, rcount, p, ia⟩ s) (hia : ia.holds = true) :
    ∃ g' s', Nearer t ⟨some t, txbuf, rcount, p, ia⟩ s g' s' := by
  have hbus := h.spi.bus
  have hcompletes := h.spi.completes
  cases ia with
  | idle => cases hia
  | called => cases hia
  | entered =>
      cases hx : p.transfer with
      | exchanged echo reply =>
          rw [hx] at hbus
          exact toward_interrupt h (.complete hbus) nofun
      | _ =>
          rw [hx] at hbus
          refine toward_interrupt h (.ignore fun _ _ _ hdone => ?_) fun _ => ?_
          · cases hbus.symm.trans hdone
          · rw [hx]
            exact Nat.lt_succ_self 1
  | storing status =>
      cases hx : p.transfer with
      | completing reply =>
          refine toward_interrupt h .store fun _ => ?_
          rw [hx]
          exact Nat.lt_succ_self 2
      | _ =>
          rw [hx] at hcompletes
          cases hcompletes
  | posting => exact toward_interrupt h .post nofun
  | leaving =>
      refine toward_interrupt h .unlock fun _ => ?_
      cases p.transfer <;> exact Nat.lt_succ_self _
  | acknowledging => cases hia

/-- The interrupt handler comes to `spi_handle_irq`, when the bytes have been exchanged. -/
theorem toward_handling {echo : ℕ → BitVec 8} {reply : List (BitVec 8)}
    (h : Inv ⟨some t, txbuf, rcount, .serving .waiting (.exchanged echo reply), ia⟩ s)
    (hia : ia.holds = false) :
    ∃ g' s', Nearer t ⟨some t, txbuf, rcount, .serving .waiting (.exchanged echo reply), ia⟩ s
      g' s' := by
  cases ia with
  | idle =>
      have hinterrupt : s.interrupt = .ret () := h.spi.interrupt
      refine ⟨_, _, ⟨.interrupt 0, trivial, ?_, False.elim⟩, ⟨?_, h.spi.start_interrupt⟩,
        fun _ _ => rfl, .inl ⟨rfl, Nat.lt_succ_self _, rfl⟩⟩
      · simp only [System.step, System.stepInterrupt, hinterrupt]
      · exact Inv.canSide_congr h.can rfl rfl rfl rfl rfl Iff.rfl rfl
  | called => exact toward_interrupt h (.lock h.spi.mutex) fun _ => Nat.lt_succ_self 0
  | acknowledging => exact toward_interrupt h .acknowledge fun _ => Nat.lt_succ_self 2
  | _ => cases hia

/-- The bus exchanges the bytes. -/
theorem toward_exchange
    (h : Inv ⟨some t, txbuf, rcount, .serving .waiting .shifting, ia⟩ s) :
    ∃ g' s', Nearer t ⟨some t, txbuf, rcount, .serving .waiting .shifting, ia⟩ s g' s' := by
  have hlen : (s.can.driver.chip.spi txbuf rcount).1.length = rcount :=
    (fits_command h.can.fits (h.can.command t rfl)).2 s.can.driver.chip
  have hbus : s.spi.bus = .shifting .port txbuf.length rcount := h.spi.bus
  have hspi := h.spi.exchange (fun _ => 0) (exchanged s.can txbuf rcount) hlen
  refine ⟨_, _, ⟨.exchange fun _ => 0, trivial, ?_, False.elim⟩, ⟨?_, hspi⟩, fun _ _ => rfl,
    .inl ⟨rfl, Ghost.left_lt_of_progress (Nat.lt_succ_self _), rfl⟩⟩
  · simp only [System.step, System.stepExchange, hbus, h.spi.outgoing_eq]
    rfl
  · exact Inv.canSide_congr h.can rfl rfl rfl rfl rfl (Iff.intro nofun nofun) rfl

/-- A call that is being served comes nearer to its end. -/
theorem toward_serving {a : ServerAt} {x : Transfer}
    (h : Inv ⟨some t, txbuf, rcount, .serving a x, ia⟩ s) (hia : ia.holds = false) :
    ∃ g' s', Nearer t ⟨some t, txbuf, rcount, .serving a x, ia⟩ s g' s' := by
  have hallows := h.spi.legal.1
  have hbus := h.spi.bus
  cases a with
  | asked =>
      by_cases hcur : s.spi.curSlaveId = canAppId
      · exact toward_server h (.same hcur)
      · exact toward_server h (.other hcur)
  | other => exact toward_server h .prepare
  | prepared => exact toward_server h .choose
  | ready =>
      have hfree : s.spi.spiMutex = false := h.spi.mutex.trans hia
      exact toward_server h (.lock hfree)
  | locked =>
      cases x <;> first | exact hallows.elim | skip
      have hsize := (fits_command h.can.fits (h.can.command t rfl)).1
      exact toward_server h (.start le_rfl hbus hsize)
  | issued ret =>
      by_cases hret : 0 ≤ ret
      · exact toward_server h (.unlock hret)
      · exact toward_server h (.giveUp (Int.not_le.1 hret))
  | waiting =>
      cases x with
      | pending => exact hallows.elim
      | shifting =>
          exact toward_exchange h
      | exchanged echo reply => exact toward_handling h hia
      | completing reply =>
          have hholds := InterruptAt.holds_of_completes h.spi.completes
          rw [hia] at hholds
          cases hholds
      | posted reply =>
          have hsem : s.spi.busSem = 1 := h.spi.busSem
          exact toward_server h (.wake (hsem ▸ Nat.one_ne_zero))
      | received reply => exact hallows.elim
  | woken => exact toward_server h .finish
  | finished ret =>
      cases x <;> first | exact hallows.elim | skip
      rename_i reply
      have hserver : s.server = some (.ret ret) := h.spi.server
      refine ⟨⟨some t, txbuf, rcount, .returned ret reply, ia⟩,
        { s with rpc := .returned ret, server := none },
        ⟨.server 0, trivial, ?_, fun hrefuses : (0 : ℤ) < 0 => absurd hrefuses (by decide)⟩,
        ⟨?_, { h.spi with rpc := rfl, server := rfl, legal := trivial }⟩, fun _ _ => rfl,
        .inl ⟨rfl, Ghost.left_lt_of_progress (Nat.lt_succ_self _), rfl⟩⟩
      · simp only [System.step, System.stepServer, hserver]
      · exact Inv.canSide_congr h.can rfl rfl rfl rfl rfl (Iff.intro nofun nofun) rfl

theorem toward_called (h : Inv ⟨some t, txbuf, rcount, .called, ia⟩ s) :
    ∃ g' s', Nearer t ⟨some t, txbuf, rcount, .called, ia⟩ s g' s' := by
  have hserver : s.server = none := h.spi.server
  have hrpc : s.rpc = .called devId txbuf.length rcount := h.spi.rpc
  refine ⟨⟨some t, txbuf, rcount, .serving .asked .pending, ia⟩,
    { s with rpc := .running, server := some (spiTransfer devId txbuf.length rcount) },
    ⟨.server 0, trivial, ?_, fun hrefuses : (0 : ℤ) < 0 => absurd hrefuses (by decide)⟩,
    ⟨?_, { h.spi with rpc := rfl, server := rfl, legal := ⟨trivial, trivial⟩ }⟩, fun _ _ => rfl,
    .inl ⟨rfl, Ghost.left_lt_of_progress (Nat.lt_succ_self _), rfl⟩⟩
  · simp only [System.step, System.stepServer, hserver, hrpc]
  · exact Inv.canSide_congr h.can rfl rfl rfl rfl rfl (Iff.intro nofun nofun) rfl

/-- The command with the lock can always come nearer to its end. -/
theorem toward (h : Inv ⟨some t, txbuf, rcount, p, ia⟩ s) :
    ∃ g' s', Nearer t ⟨some t, txbuf, rcount, p, ia⟩ s g' s' := by
  have hsize : txbuf.length + rcount ≤ spiTransMaxSize :=
    (fits_command h.can.fits (h.can.command t rfl)).1
  cases p with
  | free => cases h.can.free.2 rfl
  | storing n =>
      by_cases hn : n < txbuf.length
      · exact toward_cmd h (.store (List.getElem?_eq_getElem hn) (by omega))
      · exact toward_cmd h (.ask (Nat.not_lt.1 hn) h.spi.rpc)
  | called => exact toward_called h
  | serving a x =>
      cases hia : ia.holds with
      | true => exact toward_leaving h hia
      | false => exact toward_serving h hia
  | returned ret reply => exact toward_cmd h (.back h.spi.rpc)
  | loading reply bytes =>
      by_cases hlen : bytes.length < rcount
      · exact toward_cmd h (.load hlen (by omega))
      · exact toward_cmd h (.unlock (Nat.not_lt.1 hlen))

end Toward

/-! ## Runs to the end -/

/-- The two components can be brought, by steps of their own, to a state where the lock is free and
`P` holds. -/
def Settles (s : System) (P : System → Prop) : Prop :=
  ∃ es os s' g', Run System.StepAccepted s es os s' ∧ (∀ e ∈ es, Act.Inner e) ∧ Inv g' s' ∧
    g'.holder = none ∧ P s'

namespace Settles

variable {s s' : System} {P Q : System → Prop}

theorem nil {g : Ghost} (h : Inv g s) (hnone : g.holder = none) (hP : P s) : Settles s P :=
  ⟨[], [], s, g, .nil s, List.forall_mem_nil _, h, hnone, hP⟩

theorem cons {a : Act} (hstep : System.StepAccepted s a () s') (hinner : a.Inner)
    (h : Settles s' P) : Settles s P := by
  obtain ⟨es, os, s'', g, hrun, hes, hrest⟩ := h
  exact ⟨a :: es, () :: os, s'', g, .cons hstep hrun, List.forall_mem_cons.2 ⟨hinner, hes⟩, hrest⟩

theorem mono (h : Settles s P) (hPQ : ∀ s', P s' → Q s') : Settles s Q := by
  obtain ⟨es, os, s', g, hrun, hes, hinv, hnone, hP⟩ := h
  exact ⟨es, os, s', g, hrun, hes, hinv, hnone, hPQ s' hP⟩

theorem trans (h : Settles s P)
    (hPQ : ∀ s' g', Inv g' s' → g'.holder = none → P s' → Settles s' Q) : Settles s Q := by
  obtain ⟨es, os, s', g, hrun, hes, hinv, hnone, hP⟩ := h
  obtain ⟨es', os', s'', g', hrun', hes', hrest⟩ := hPQ s' g hinv hnone hP
  exact ⟨es ++ es', os ++ os', s'', g', hrun.append hrun', List.forall_mem_append.2 ⟨hes, hes'⟩,
    hrest⟩

end Settles

namespace Inv

variable {g : Ghost} {s : System} {t : Tid}

/-- The command with the lock can be brought to its end, with the outcome it has to have. -/
theorem finish (h : Inv g s) (ht : g.holder = some t) :
    Settles s fun s' => s'.cmd t = none ∧ (∀ t', t' ≠ t → s'.cmd t' = s.cmd t') ∧
      s'.can = g.outcome s.can t := by
  induction hn : g.left using Nat.strong_induction_on generalizing g s with
  | _ n ih =>
      obtain ⟨holder, txbuf, rcount, p, ia⟩ := g
      subst ht
      obtain ⟨g₁, s₁, ⟨a, hinner, hstep⟩, hinv, hothers, hnext⟩ := toward h
      obtain ⟨hholder, hleft, houtcome⟩ | ⟨hholder, hcmd, hcan⟩ := hnext
      · refine .cons hstep hinner ((ih g₁.left (hn ▸ hleft) hinv hholder rfl).mono ?_)
        rintro s' ⟨hcmd, hothers', hcan⟩
        exact ⟨hcmd, fun t' hne => (hothers' t' hne).trans (hothers t' hne), hcan.trans houtcome⟩
      · exact .cons hstep hinner (.nil hinv hholder ⟨hcmd, hothers, hcan⟩)

/-- A thread that waits for the lock can take it, when it is free, and finish. -/
theorem serve {txbuf : List (BitVec 8)} {rcount : ℕ} (h : Inv g s) (hnone : g.holder = none)
    (hcmd : s.cmd t = some (transact txbuf rcount))
    (hcommand : commandOf s.can t = some (txbuf, rcount)) :
    Settles s fun s' => s'.cmd t = none ∧ (∀ t', t' ≠ t → s'.cmd t' = s.cmd t') ∧
      s'.can = answer (exchanged s.can txbuf rcount) (s.can.driver.chip.spi txbuf rcount).1 t := by
  have hfree : s.spiLock = false := h.can.lock.trans (by rw [hnone]; rfl)
  have hmoves : CmdAt.Moves txbuf rcount s .asked (.storing 0) { s with spiLock := true } :=
    .lock hfree
  obtain ⟨o, k, r, hrest, hexec, hk⟩ := CmdAt.exec_of_moves hmoves
  have hcmd' : s.cmd t = some (.call o k) := hcmd.trans (congrArg some hrest)
  have hstep : System.StepAccepted s (.thread t) ()
      { s with
        spiLock := true
        cmd := Function.update s.cmd t (some ((CmdAt.storing 0).rest txbuf rcount)) } := by
    refine ⟨?_, False.elim⟩
    simp only [System.step, System.stepThread, hcmd', hexec, Option.map_some, hk]
    rw [resume_rest t txbuf rcount (CmdAt.storing_ne_done 0)]
  refine .cons hstep trivial (((h.step_lock hcommand hfree).finish rfl).mono ?_)
  rintro s' ⟨hcmd, hothers, hcan⟩
  exact ⟨hcmd, fun t' hne => (hothers t' hne).trans (Function.update_of_ne hne ..), hcan⟩

/-- The same, if it waits. -/
theorem serve_any (h : Inv g s) (hnone : g.holder = none) (t : Tid) :
    Settles s fun s' => s'.cmd t = none ∧ ∀ t', t' ≠ t → s'.cmd t' = s.cmd t' := by
  cases hcmd : s.cmd t with
  | none => exact .nil h hnone ⟨hcmd, fun _ _ => rfl⟩
  | some p =>
      obtain ⟨txbuf, rcount, hcommand, rfl⟩ := h.can.waiting t p hcmd (by rw [hnone]; exact nofun)
      exact (h.serve hnone hcmd hcommand).mono fun s' hs' => ⟨hs'.1, hs'.2.1⟩

/-- All commands can be brought to their ends. -/
theorem quiesce (h : Inv g s) : Settles s fun s' => ∀ t, s'.cmd t = none := by
  have hfree : Settles s fun _ => True := by
    cases ht : g.holder with
    | none => exact .nil h ht trivial
    | some t => exact (h.finish ht).mono fun _ _ => trivial
  refine hfree.trans fun s₁ g₁ h₁ hnone₁ _ => ?_
  refine (h₁.serve_any hnone₁ .client).trans fun s₂ g₂ h₂ hnone₂ hcmd₂ => ?_
  refine (h₂.serve_any hnone₂ .handler).mono fun s₃ hcmd₃ t => ?_
  cases t with
  | client => exact (hcmd₃.2 .client nofun).trans hcmd₂.1
  | handler => exact hcmd₃.1

end Inv

/-! ## The other half of atomicity -/

/-- An operation that is a command, and that goes on, goes on as the exchange does. -/
theorem proceed_of_exec {α : Type} {o : Can.Op} {k : Can.Ans o → Can.Io α} {r : Can.Ans o}
    {d d' : Can.Driver} {txbuf : List (BitVec 8)} {rcount : ℕ} (hist : Can.History)
    (h : command (.call o k) = some (txbuf, rcount)) (hexec : Can.exec o d = some (r, d')) :
    d' = { d with chip := (d.chip.spi txbuf rcount).2 } ∧
      proceed (d.chip.spi txbuf rcount).1 (.call o k) = k r ∧
      hist.record (.spi txbuf rcount) = hist.record o := by
  obtain ⟨k', hcall⟩ | ⟨reg, k', hcall, rfl, rfl⟩ := command_eq_some h
  · cases hcall
    cases hexec
    exact ⟨rfl, rfl, rfl⟩
  · cases hcall
    obtain ⟨hzero, hret⟩ := Option.ite_none_right_eq_some.1 hexec
    cases hret
    have hhead : (d.chip.spi [0x03, reg] 1).1.headD 0 = d.chip.read (Can.toAddr reg) :=
      congrArg d.chip.read (Fin.ext (Nat.mod_eq_of_lt (Can.toAddr reg).isLt))
    exact ⟨rfl, if_pos (hhead.trans hzero), rfl⟩

/-- The exchange of the command of a thread leads where its step leads. -/
theorem answer_exchanged {can can' : Can.System} {t : Tid} {txbuf : List (BitVec 8)} {rcount : ℕ}
    (hcmd : commandOf can t = some (txbuf, rcount)) (h : can.Moves t.act can') :
    answer (exchanged can txbuf rcount) (can.driver.chip.spi txbuf rcount).1 t = can' := by
  cases t with
  | client =>
      obtain ⟨c, p, hclient, hp⟩ := commandOf_client hcmd
      cases h with
      | reply hprog =>
          cases hclient.symm.trans hprog
          cases hp
      | client hprog hexec =>
          cases hclient.symm.trans hprog
          obtain ⟨hdriver, hproceed, hrecord⟩ := proceed_of_exec can.history hp hexec
          simp only [answer, exchanged, hclient, Option.map_some, hproceed, hdriver, hrecord]
  | handler =>
      cases h with
      | handler hprog hexec =>
          obtain ⟨hdriver, hproceed, hrecord⟩ :=
            proceed_of_exec can.history ((congrArg command hprog).symm.trans hcmd) hexec
          simp only [answer, exchanged, hprog, hproceed, hdriver, hrecord]

namespace System

/-- Whatever has happened, and whatever the bus driver has done, all commands can be brought to
their ends, if only it accepts transfers from now on. -/
theorem commands_end {can₀ : Can.System} (hrest : can₀.AtRest) {s : System}
    (h : Reachable Step (Starts can₀) s) :
    ∃ es os s', Run StepAccepted s es os s' ∧ (∀ e ∈ es, Act.Inner e) ∧ s'.spiLock = false ∧
      s'.rpc = .idle ∧ s'.server = none ∧ ∀ t, s'.cmd t = none := by
  obtain ⟨g, hinv⟩ := inv_of_reachable hrest h
  obtain ⟨es, os, s', g', hrun, hes, hinv', hnone, hcmd⟩ := hinv.quiesce
  have hfree : g'.progress = .free := hinv'.can.free.1 hnone
  refine ⟨es, os, s', hrun, hes, ?_, ?_, ?_, hcmd⟩
  · rw [hinv'.can.lock, hnone]
    rfl
  · rw [hinv'.spi.rpc, hfree]
    rfl
  · rw [hinv'.spi.server, hfree]
    rfl

theorem commands_end_askFlags :
    ∃ s, askFlags.foldlM step first = some s ∧ s.spiLock = true ∧
      ∃ es os s', Run StepAccepted s es os s' ∧ (∀ e ∈ es, Act.Inner e) ∧ s'.spiLock = false ∧
        s'.rpc = .idle ∧ s'.server = none ∧ ∀ t, s'.cmd t = none := by
  have hlock : (askFlags.foldlM step first).map (fun s => s.spiLock) = some true := rfl
  obtain ⟨s, hrun, hlock⟩ := Option.map_eq_some_iff.1 hlock
  exact ⟨s, hrun, hlock, commands_end ⟨rfl, rfl⟩ (reachable_foldlM_step hrun)⟩

/-- Each step with SPI transactions as single steps is made of small ones. -/
theorem run_of_moves {g : Ghost} {s : System} {a : Can.Act} {can' : Can.System} (h : Inv g s)
    (hnone : g.holder = none) (hcmd : ∀ t, s.cmd t = none) (hmoves : s.can.Moves a can') :
    ∃ es os s' g', Run StepAccepted s es os s' ∧ Inv g' s' ∧ g'.holder = none ∧
      (∀ t, s'.cmd t = none) ∧ s'.can = can' := by
  by_cases hspi : ∃ t : Tid, a = t.act ∧ ∃ cmd, commandOf s.can t = some cmd
  · obtain ⟨t, rfl, ⟨txbuf, rcount⟩, hcommand⟩ := hspi
    have hbegin : StepAccepted s (.thread t) () (s.resume t (transact txbuf rcount)) := by
      refine ⟨?_, False.elim⟩
      simp only [step, stepThread, hcmd t, hcommand]
    have hwaits : (s.resume t (transact txbuf rcount)).cmd t = some (transact txbuf rcount) :=
      Function.update_self ..
    obtain ⟨es, os, s', g', hrun, -, hinv', hnone', hdone, hothers, hcan⟩ :=
      (h.step_begin (hcmd t) hcommand).serve hnone hwaits hcommand
    refine ⟨_, _, s', g', .cons hbegin hrun, hinv', hnone', fun t' => ?_,
      hcan.trans (answer_exchanged hcommand hmoves)⟩
    by_cases hne : t' = t
    · exact hne ▸ hdone
    · exact (hothers t' hne).trans ((Function.update_of_ne hne ..).trans (hcmd t'))
  · have hinv' := (h.step_beside hmoves fun t _ => hcmd t).1
    have hplain : ∀ t : Tid, a = t.act → commandOf s.can t = none := fun t ha =>
      Option.eq_none_iff_forall_ne_some.2 fun cmd hcommand => hspi ⟨t, ha, cmd, hcommand⟩
    have hstep := Can.System.step_of_moves hmoves
    have hsingle : ∃ b, StepAccepted s b () { s with can := can' } := by
      cases a with
      | call c => exact ⟨.call c, by simp only [step, hstep, Option.map_some], False.elim⟩
      | irq frame => exact ⟨.irq frame, by simp only [step, hstep, Option.map_some], False.elim⟩
      | chip e => exact ⟨.chip e, by simp only [step, hstep, Option.map_some], False.elim⟩
      | client =>
          refine ⟨.thread .client, ?_, False.elim⟩
          simp only [step, stepThread, hcmd, hplain .client rfl, Tid.act, hstep, Option.map_some]
      | handler =>
          refine ⟨.thread .handler, ?_, False.elim⟩
          simp only [step, stepThread, hcmd, hplain .handler rfl, Tid.act, hstep, Option.map_some]
    obtain ⟨b, hb⟩ := hsingle
    exact ⟨[b], [()], _, g, .single hb, hinv', hnone, hcmd, rfl⟩

/-- The CAN component on the bus comes, outside of its commands, to the same states as with SPI
transactions as single steps. -/
theorem reachable_iff {can₀ : Can.System} (hrest : can₀.AtRest) (can : Can.System) :
    Reachable Can.System.Step (· = can₀) can ↔
      ∃ s, Reachable StepAccepted (Starts can₀) s ∧ (∀ t, s.cmd t = none) ∧ s.can = can := by
  constructor
  · intro h
    have hrealized : ∃ s, Reachable StepAccepted (Starts can₀) s ∧
        s.can = can ∧ (∀ t, s.cmd t = none) ∧ ∃ g, Inv g s ∧ g.holder = none := by
      refine h.realized (R := fun s can =>
        s.can = can ∧ (∀ t, s.cmd t = none) ∧ ∃ g, Inv g s ∧ g.holder = none) ?_ ?_
      · rintro can rfl
        have hstart : Starts can (atRest can { Component.boot (fun _ => 0) (fun _ => 0) 0 with
            busSem := 0 }) := ⟨_, _, _, 0, _, run_spiInit _ _ _ _, rfl⟩
        exact ⟨_, hstart, rfl, fun _ => rfl, .free, (inv_starts hrest hstart).1, rfl⟩
      · rintro s _ a _ can' ⟨rfl, hcmd, g, hinv, hnone⟩ hstep
        obtain ⟨es, os, s', g', hrun, hinv', hnone', hcmd', hcan⟩ :=
          run_of_moves hinv hnone hcmd (Can.System.moves_of_step hstep)
        exact ⟨es, os, s', hrun, hcan, hcmd', g', hinv', hnone'⟩
    obtain ⟨s, hs, hcan, hcmd, -⟩ := hrealized
    exact ⟨s, hs, hcmd, hcan⟩
  · rintro ⟨s, hs, hcmd, rfl⟩
    obtain ⟨g, hinv, hcan⟩ := shown_of_accepted hrest hs
    have hnone : g.holder = none := Option.eq_none_iff_forall_ne_some.2 fun t ht =>
      Option.some_ne_none _ ((hinv.can.cmd t ht).symm.trans (hcmd t))
    have hshown : g.shown s.can = s.can := by
      unfold Ghost.shown
      rw [hnone]
    exact hshown ▸ hcan

/-- The client sends a frame, which takes one command. -/
def sendFirst : List Can.Act := .call (.send (.bare 0x123)) :: List.replicate 15 .client

theorem reachable_iff_sendFirst :
    ∃ can, first.can.run Can.System.anyStep sendFirst = some can ∧
      can.driver.chip.reg (Can.toAddr Can.canintf) = Can.txifMask ∧
      ∃ s, Reachable StepAccepted (Starts first.can) s ∧ (∀ t, s.cmd t = none) ∧ s.can = can := by
  have hflags : (first.can.run Can.System.anyStep sendFirst).map (fun can =>
      can.driver.chip.reg (Can.toAddr Can.canintf)) = some Can.txifMask := rfl
  obtain ⟨can, hrun, hflags⟩ := Option.map_eq_some_iff.1 hflags
  have hreach : Reachable Can.System.Step (· = first.can) can :=
    Can.System.reachable_of_run Can.System.step_of_anyStep hrun (.of_init rfl)
  exact ⟨can, hrun, hflags, (reachable_iff ⟨rfl, rfl⟩ can).1 hreach⟩

end System

end Spi
end Tk1Bsp
