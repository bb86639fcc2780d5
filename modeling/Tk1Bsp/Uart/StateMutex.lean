import Tk1Bsp.Framework.Protocol
import Tk1Bsp.Uart.System

/-!
# The state mutexes

A call and the interrupt handler of a UART exclude each other by its state mutex.  A call takes it
before it looks for the device, and gives it back when it has handed over its request.  If
`ps_cdev_init` does not find the device, the call returns without giving it back.

In all interleavings of the client with the handlers, that is the only way for a call to keep a
state mutex: up to the first initialization that fails, a state mutex is held only by a thread that
is going to release it.
-/

namespace Tk1Bsp
namespace Uart

/-! ## What is to be shown -/

/-- What is left of a program gives back the state mutex, whatever answers it gets, before it takes
it again. -/
def Releases (u : Fin 3) {α : Type} : Io α → Prop
  | .ret _ => False
  | .call o k => o = .stateUnlock u ∨ (o ≠ .stateLock u ∧ ∀ r, Releases u (k r))

namespace System

variable (nvUartaAsync : ℤ)

/-- The client is in no call, or its call is about to return. -/
def AtReturn (s : System) : Prop := s.rpc = none ∨ ∃ q ret, s.rpc = some (q, .ret ret)

/-- When a call returns, no state mutex is held but by a handler that is going to release it.  Then
the next call on a UART passes its state mutex: it comes to use the device, or to initialize it if
that has not succeeded before.  So does the next interrupt. -/
structure Unkept (s : System) : Prop where
  released : s.AtReturn → ∀ u, s.cdevs.stateMtx u = true → Releases u (s.handler u)
  call : s.AtReturn → ∀ u, s.handler u = .ret () → ∀ (x : Outcome) (q : Call) (c : Channel),
    q.target nvUartaAsync = some (u, c) → (s.cdevs.line u c).buff = true →
      (if s.cdevs.pinst u then .cdevStart u c q.nbytes else .cdevInit u) ∈
        (q.body nvUartaAsync).trace (exec x) s.cdevs
  interrupt : s.AtReturn → ∀ u, s.handler u = .ret () → s.cdevs.pinst u = true → ∀ x : Outcome,
    .cdevHandleIrq u ∈ (tk1UartIrqHandle u).trace (exec x) s.cdevs

/-- One step, whatever the platform driver does. -/
def AnyStep (s : System) (a : Act) (_ : Unit) (s' : System) : Prop :=
  s.step nvUartaAsync a = some s'

/-- The next step is an initialization that finds no device. -/
def InitFails (s : System) (a : Act) (u : Fin 3) : Prop :=
  ∃ x q k, a = .rpc x ∧ s.rpc = some (q, .call (.cdevInit u) k) ∧ x.init = false

end System

/-! ## What the threads do with a state mutex -/

/-- The operations that matter to the state mutex of a UART. -/
def Op.Locks (u : Fin 3) : Op → Prop
  | .stateLock u' | .stateUnlock u' | .cdevInit u' => u' = u
  | _ => False

/-- Where a thread is, seen from the state mutex of a UART: outside, inside, or on its way out after
an initialization that failed. -/
inductive Hold
  | out
  | inside
  | failed

/-- What a thread may do with a state mutex.  Only the client initializes devices. -/
inductive LockRule (client : Prop) (u : Fin 3) : Hold → (o : Op) → Ans o → Hold → Prop
  | away {g : Hold} {o : Op} {r : Ans o} (hlocks : ¬ o.Locks u) (hg : g ≠ .failed) :
      LockRule client u g o r g
  | lock : LockRule client u .out (.stateLock u) () .inside
  | unlock : LockRule client u .inside (.stateUnlock u) () .out
  | init (hclient : client) (found : Bool) :
      LockRule client u .inside (.cdevInit u) found (if found then .inside else .failed)

/-- What is known of a call when it returns. -/
def Hold.Returns (g : Hold) (ret : ℤ) : Prop := g = .out ∨ (g = .failed ∧ ret = -1)

section Programs

variable {u u' : Fin 3} {c : Channel} {client : Prop}

theorem hold_out_ne : Hold.out ≠ .failed := nofun
theorem hold_inside_ne : Hold.inside ≠ .failed := nofun

/-- The lazy initialization, inside the state mutex. -/
theorem follows_initDevice (u : Fin 3) :
    (initDevice u).Follows (LockRule True u) .inside
      fun ready g => g = if ready then .inside else .failed := by
  intro pinst
  refine ⟨.inside, .away not_false hold_inside_ne, ?_⟩
  cases pinst with
  | true => exact rfl
  | false =>
      exact fun _ => ⟨.inside, .away not_false hold_inside_ne,
        fun found => ⟨_, .init trivial found, rfl⟩⟩

/-- A call takes the state mutex of its UART, and keeps it only if the initialization fails. -/
theorem follows_transfer_lock (u : Fin 3) (c : Channel) (nbytes : ℤ) :
    (tk1UartTransfer c u nbytes).Follows (LockRule True u) .out fun ret g => g.Returns ret := by
  simp only [tk1UartTransfer, op, Prog.bind_eq, Prog.perform_bind]
  refine fun buff => ⟨.out, .away not_false hold_out_ne, ?_⟩
  cases buff with
  | false => exact .inl rfl
  | true =>
      refine fun _ => ⟨.inside, .lock, Prog.Follows.bind ?_⟩
      refine (follows_initDevice u).mono fun ready g hg => ?_
      subst hg
      cases ready with
      | false => exact .inr ⟨rfl, rfl⟩
      | true =>
          refine fun ret => ⟨.inside, .away not_false hold_inside_ne, fun _ => ⟨.out, .unlock, ?_⟩⟩
          beta_reduce
          split
          · exact .inl rfl
          · exact fun _ => ⟨.out, .away not_false hold_out_ne,
              fun _ => ⟨.out, .away not_false hold_out_ne, .inl rfl⟩⟩

/-- What concerns another UART does nothing with the state mutex. -/
theorem Op.About.not_locks {o : Op} {C : Channel → Prop} (h : o.About u' C) (hne : u' ≠ u) :
    ¬ o.Locks u := by
  intro hlocks
  cases o with
  | stateLock | stateUnlock | cdevInit => exact hne (h.symm.trans hlocks)
  | _ => exact hlocks

theorem unlocked_transfer (h : u' ≠ u) (c : Channel) (nbytes : ℤ) :
    (tk1UartTransfer c u' nbytes).Every fun o => ¬ o.Locks u :=
  (about_transfer c u' nbytes).mono fun _ ho => ho.not_locks h

theorem unlocked_irqHandle (h : u' ≠ u) : (tk1UartIrqHandle u').Every fun o => ¬ o.Locks u :=
  (about_irqHandle u').mono fun _ ho => ho.not_locks h

theorem follows_of_unlocked {α : Type} {p : Io α} (h : p.Every fun o => ¬ o.Locks u) :
    p.Follows (LockRule client u) .out fun _ g => g = .out :=
  h.follows fun _ _ ho => .away ho hold_out_ne

theorem follows_body_lock (nvUartaAsync : ℤ) (q : Call) (u : Fin 3) :
    (q.body nvUartaAsync).Follows (LockRule True u) .out fun ret g => g.Returns ret := by
  rw [Call.body_eq, tk1UartCall]
  cases uartIndex nvUartaAsync q.uartNum with
  | none => exact .inl rfl
  | some u' =>
      by_cases h : u' = u
      · subst h
        exact follows_transfer_lock u' q.channel q.nbytes
      · exact (follows_of_unlocked (unlocked_transfer h q.channel q.nbytes)).mono
          fun _ _ hg => .inl hg

theorem unlocked_runCallbacks (u u' : Fin 3) (es : List Completion) :
    (runCallbacks u' es).Every fun o => ¬ o.Locks u := by
  induction es with
  | nil => trivial
  | cons e es ih => exact ⟨not_false, fun _ => ih⟩

theorem unlocked_releaseCaller (u u' : Fin 3) (c : Channel) :
    (releaseCaller u' c).Every fun o => ¬ o.Locks u := by
  refine ⟨not_false, fun release => ?_⟩
  cases release with
  | false => trivial
  | true => exact ⟨not_false, fun _ => ⟨not_false, fun _ => trivial⟩⟩

/-- The end of a handler, after it has given back its state mutex. -/
theorem unlocked_releases (u u' : Fin 3) :
    ((releaseCaller u' .write).bind fun _ => releaseCaller u' .read).Every
      fun o => ¬ o.Locks u :=
  (unlocked_releaseCaller u u' .write).bind fun _ => unlocked_releaseCaller u u' .read

/-- A handler takes the state mutex of its UART and gives it back. -/
theorem follows_irqHandle_lock (u : Fin 3) :
    (tk1UartIrqHandle u).Follows (LockRule False u) .out fun _ g => g = .out := by
  simp only [tk1UartIrqHandle, tk1UartIrqHandler, op, Prog.bind_eq, Prog.perform_bind]
  refine Prog.Follows.seq ?_ fun _ _ => ⟨.out, .away not_false hold_out_ne, rfl⟩
  refine fun pinst => ⟨.out, .away not_false hold_out_ne, fun _ => ⟨.out,
    .away not_false hold_out_ne, fun _ => ⟨.inside, .lock, fun l => ⟨.inside,
      .away not_false hold_inside_ne, ?_⟩⟩⟩⟩
  have hcallbacks := (unlocked_runCallbacks u u l.list).follows fun o r ho =>
    (.away ho hold_inside_ne : LockRule False u .inside o r .inside)
  exact hcallbacks.seq fun _ _ => ⟨.out, .unlock, follows_of_unlocked (unlocked_releases u u)⟩

/-! ## Who releases a state mutex -/

section Releases

variable {α : Type} {p : Io α}

/-- A thread that is outside does not release the mutex before it has taken it. -/
theorem not_releases_of_out {Q : α → Hold → Prop} (h : p.Follows (LockRule client u) .out Q) :
    ¬ Releases u p := by
  induction p with
  | ret a => exact not_false
  | call o k ih =>
      obtain ⟨r⟩ := nonempty_ans o
      obtain ⟨g', hrule, hk⟩ := h r
      rintro (rfl | ⟨hne, hall⟩)
      · cases hrule with
        | away hlocks _ => exact hlocks rfl
      · cases hrule with
        | away _ _ => exact ih r hk (hall r)
        | lock => exact hne rfl

/-- A handler that is inside is going to release it. -/
theorem releases_of_inside (h : p.Follows (LockRule False u) .inside fun _ g => g = .out) :
    Releases u p := by
  induction p with
  | ret a => cases h
  | call o k ih =>
      by_cases ho : o = .stateUnlock u
      · exact .inl ho
      · refine .inr ⟨?_, fun r => ?_⟩
        · rintro rfl
          obtain ⟨g', hrule, -⟩ := h ()
          cases hrule with
          | away hlocks _ => exact hlocks rfl
        · obtain ⟨g', hrule, hk⟩ := h r
          cases hrule with
          | away _ _ => exact ih r hk
          | unlock => exact absurd rfl ho
          | init hclient _ => exact hclient.elim

/-- After an initialization that has failed, a call only returns. -/
theorem eq_ret_of_failed {p : Io ℤ}
    (h : p.Follows (LockRule client u) .failed fun ret g => g.Returns ret) : p = .ret (-1) := by
  cases p with
  | ret ret =>
      rcases h with hg | ⟨-, rfl⟩
      · cases hg
      · rfl
  | call o k =>
      obtain ⟨r⟩ := nonempty_ans o
      obtain ⟨g', hrule, -⟩ := h r
      cases hrule with
      | away _ hg => exact absurd rfl hg

end Releases

end Programs

/-! ## The mutex and its two threads -/

/-- A state mutex is held exactly while one of its threads is inside. -/
inductive Holder : Bool → Hold → Hold → Prop
  | free : Holder false .out .out
  | first : Holder true .inside .out
  | second : Holder true .out .inside

section Steps

variable {u : Fin 3} {client : Prop} {d d' : Cdevs} {x : Outcome} {o : Op} {r : Ans o}
  {g g' w : Hold} {held : Bool}

theorem Holder.symm (h : Holder held g w) : Holder held w g := by
  cases h with
  | free => exact .free
  | first => exact .second
  | second => exact .first

theorem Holder.ne_failed (h : Holder held g w) : g ≠ .failed := by
  cases h with
  | free | second => exact hold_out_ne
  | first => exact hold_inside_ne

theorem Holder.of_inside (h : Holder held .inside w) : held = true ∧ w = .out := by
  cases h
  exact ⟨rfl, rfl⟩

theorem Holder.lock (h : Holder held .out w) (hfree : ¬ held = true) : Holder true .inside w := by
  cases h with
  | free => exact .first
  | second => exact absurd rfl hfree

theorem Holder.unlock (h : Holder held .inside w) : Holder false .out w := by
  rw [h.of_inside.2]
  exact .free

theorem stateMtx_exec (hexec : exec x o d = some (r, d')) (ho : ¬ o.Locks u) :
    d'.stateMtx u = d.stateMtx u := by
  cases o with
  | stateLock u' =>
      simp only [exec] at hexec
      split at hexec <;> cases hexec
      exact Function.update_of_ne (Ne.symm ho) _ _
  | stateUnlock u' =>
      cases hexec
      exact Function.update_of_ne (Ne.symm ho) _ _
  | cdevStart | syncLock | cdevHandleIrq | assert =>
      simp only [exec] at hexec
      split at hexec <;> cases hexec
      all_goals rfl
  | _ =>
      cases hexec
      rfl

/-- A handler initializes nothing. -/
theorem LockRule.ne_init (h : LockRule False u g o r g') : o ≠ .cdevInit u := by
  rintro rfl
  cases h with
  | away hlocks _ => exact hlocks rfl
  | init hclient _ => exact hclient

/-- One operation of one of the threads, where no initialization fails. -/
theorem Holder.step (h : Holder (d.stateMtx u) g w) (hrule : LockRule client u g o r g')
    (hexec : exec x o d = some (r, d')) (hx : o = .cdevInit u → x.init = true) :
    Holder (d'.stateMtx u) g' w := by
  cases hrule with
  | away hlocks _ =>
      rw [stateMtx_exec hexec hlocks]
      exact h
  | lock =>
      simp only [exec] at hexec
      split at hexec
      · cases hexec
      · rename_i hfree
        cases hexec
        show Holder (Function.update d.stateMtx u true u) .inside w
        rw [Function.update_self]
        exact h.lock hfree
  | unlock =>
      cases hexec
      show Holder (Function.update d.stateMtx u false u) .out w
      rw [Function.update_self]
      exact h.unlock
  | init _ found =>
      cases hexec
      rw [hx rfl]
      exact h

end Steps

/-! ## Runs -/

namespace System

variable {nvUartaAsync : ℤ} {s s' : System} {a : Act} {u : Fin 3} {g w : Hold}

/-- What is known of the thread of the client. -/
def Client (u : Fin 3) : Option (Call × Io ℤ) → Hold → Prop
  | none, g => g = .out
  | some (_, p), g => p.Follows (LockRule True u) g fun ret g => g.Returns ret

/-- The invariant of a state mutex, while no initialization has failed. -/
structure Locked (s : System) (u : Fin 3) (g w : Hold) : Prop where
  holder : Holder (s.cdevs.stateMtx u) g w
  client : Client u s.rpc g
  handler : (s.handler u).Follows (LockRule False u) w fun _ w => w = .out
  others : ∀ v, v ≠ u → (s.handler v).Every fun o => ¬ o.Locks u

theorem locked_of_started (h : Started s) (u : Fin 3) : s.Locked u .out .out := by
  obtain ⟨x, buff, d, hrun, rfl⟩ := h
  obtain ⟨-, rfl⟩ := Prod.mk.inj (Option.some.inj hrun)
  exact ⟨.free, rfl, rfl, fun _ _ => trivial⟩

/-- A handler is replaced. -/
theorem others_update {f : Fin 3 → Io Unit} {v : Fin 3} {p : Io Unit}
    (hf : ∀ v, v ≠ u → (f v).Every fun o => ¬ o.Locks u)
    (hp : v ≠ u → p.Every fun o => ¬ o.Locks u) (v' : Fin 3) (hv : v' ≠ u) :
    (Function.update f v p v').Every fun o => ¬ o.Locks u := by
  by_cases heq : v' = v
  · subst heq
    rw [Function.update_self]
    exact hp hv
  · rw [Function.update_of_ne heq]
    exact hf v' hv

namespace Locked

theorem out_of_ret {q : Call} {ret : ℤ} (h : s.Locked u g w) (hprog : s.rpc = some (q, .ret ret)) :
    g = .out := by
  obtain ⟨holder, client, -, -⟩ := h
  rw [hprog] at client
  rcases client with hg | ⟨hg, -⟩
  · exact hg
  · exact absurd hg holder.ne_failed

/-- One step that is not a failed initialization. -/
theorem step (h : s.Locked u g w) (hstep : s.step nvUartaAsync a = some s')
    (hgood : ∀ u, ¬ s.InitFails a u) : ∃ g' w', s'.Locked u g' w' := by
  have hout := @out_of_ret s u g w
  obtain ⟨holder, client, handler, others⟩ := h
  cases moves_of_step hstep with
  | call q hidle =>
      rw [hidle] at client
      obtain rfl := client
      exact ⟨.out, w, holder, follows_body_lock nvUartaAsync q u, handler, others⟩
  | @rpc x q o k r d hprog hexec =>
      rw [hprog] at client
      obtain ⟨g', hrule, hk⟩ := client r
      refine ⟨g', w, holder.step hrule hexec fun ho => ?_, hk, handler, others⟩
      subst ho
      by_contra hinit
      exact hgood u ⟨x, q, k, rfl, hprog, Bool.eq_false_iff.2 hinit⟩
  | @reply q ret hprog =>
      obtain rfl := hout ⟨holder, client, handler, others⟩ hprog
      exact ⟨.out, w, holder, rfl, handler, others⟩
  | @irq v hrest =>
      refine ⟨g, w, holder, client, ?_, others_update others unlocked_irqHandle⟩
      show (Function.update s.handler v (tk1UartIrqHandle v) u).Follows _ _ _
      by_cases hv : u = v
      · subst hv
        rw [hrest] at handler
        rw [Function.update_self, show w = .out from handler]
        exact follows_irqHandle_lock u
      · rw [Function.update_of_ne hv]
        exact handler
  | @handler v x o k r d hprog hexec =>
      by_cases hv : v = u
      · subst hv
        rw [hprog] at handler
        obtain ⟨w', hrule, hk⟩ := handler r
        refine ⟨g, w', ?_, client, ?_, others_update others fun h => absurd rfl h⟩
        · exact (holder.symm.step hrule hexec fun ho => absurd ho hrule.ne_init).symm
        · show (Function.update s.handler v (k r) v).Follows _ _ _
          rw [Function.update_self]
          exact hk
      · have hothers := others v hv
        rw [hprog] at hothers
        refine ⟨g, w, ?_, client, ?_, others_update others fun _ => hothers.2 r⟩
        · show Holder (d.stateMtx u) g w
          rw [stateMtx_exec hexec hothers.1]
          exact holder
        · show (Function.update s.handler v (k r) u).Follows _ _ _
          rw [Function.update_of_ne (Ne.symm hv)]
          exact handler

end Locked

/-! ## What holds when a call returns -/

theorem exec_stateLock {d : Cdevs} (x : Outcome) (hfree : d.stateMtx u = false) :
    exec x (.stateLock u) d =
      some ((), { d with stateMtx := Function.update d.stateMtx u true }) := by
  rw [exec, hfree, if_neg Bool.false_ne_true]

/-- Where the state mutex is free, a call passes it, and uses the device or initializes it. -/
theorem mem_trace_body {d : Cdevs} {q : Call} {c : Channel} (hfree : d.stateMtx u = false)
    (htarget : q.target nvUartaAsync = some (u, c)) (hbuff : (d.line u c).buff = true)
    (x : Outcome) :
    (if d.pinst u then .cdevStart u c q.nbytes else .cdevInit u) ∈
      (q.body nvUartaAsync).trace (exec x) d := by
  obtain ⟨u', hindex, hline⟩ := Option.map_eq_some_iff.1 htarget
  obtain ⟨rfl, rfl⟩ := Prod.mk.inj hline
  rw [Call.body_eq, tk1UartCall, hindex]
  show _ ∈ (tk1UartTransfer q.channel u' q.nbytes).trace (exec x) d
  have hgetBuff : exec x (.getBuff u' q.channel) d = some (true, d) :=
    congrArg (fun buff => some (buff, d)) hbuff
  have hlock := exec_stateLock x hfree
  simp only [tk1UartTransfer, initDevice, op, Prog.bind_eq, Prog.perform_bind, Prog.call_bind]
  refine Prog.mem_trace_of_exec hgetBuff (Prog.mem_trace_of_exec hlock ?_)
  refine Prog.mem_trace_of_exec rfl ?_
  show _ ∈ Prog.trace _ (Prog.bind (if d.pinst u' = true then _ else _) _) _
  cases d.pinst u' with
  | true => exact Prog.mem_trace_call
  | false => exact Prog.mem_trace_of_exec rfl Prog.mem_trace_call

/-- And a handler comes to serve the device. -/
theorem mem_trace_irqHandle {d : Cdevs} (hfree : d.stateMtx u = false) (hpinst : d.pinst u = true)
    (x : Outcome) : .cdevHandleIrq u ∈ (tk1UartIrqHandle u).trace (exec x) d := by
  have hgetPinst : exec x (.getPinst u) d = some (true, d) :=
    congrArg (fun pinst => some (pinst, d)) hpinst
  have hlock := exec_stateLock x hfree
  simp only [tk1UartIrqHandle, tk1UartIrqHandler, op, Prog.bind_eq, Prog.perform_bind,
    Prog.call_bind]
  exact Prog.mem_trace_of_exec hgetPinst (Prog.mem_trace_of_exec rfl
    (Prog.mem_trace_of_exec hlock Prog.mem_trace_call))

theorem unkept_of_locked (h : ∀ u, ∃ g w, s.Locked u g w) : s.Unkept nvUartaAsync := by
  have hreleased : s.AtReturn → ∀ u, s.cdevs.stateMtx u = true → Releases u (s.handler u) := by
    intro hret u hheld
    obtain ⟨g, w, hlocked⟩ := h u
    have hg : g = .out := by
      rcases hret with hidle | ⟨q, ret, hprog⟩
      · have hclient := hlocked.client
        rwa [hidle] at hclient
      · exact hlocked.out_of_ret hprog
    have holder := hlocked.holder
    rw [hheld, hg] at holder
    cases holder
    exact releases_of_inside hlocked.handler
  have hfree : s.AtReturn → ∀ u, s.handler u = .ret () → s.cdevs.stateMtx u = false := by
    intro hret u hrest
    by_contra hheld
    have hreleases := hreleased hret u (Bool.not_eq_false _ ▸ hheld)
    rw [hrest] at hreleases
    exact hreleases
  exact
    { released := hreleased
      call := fun hret u hrest x q c ht hb => mem_trace_body (hfree hret u hrest) ht hb x
      interrupt := fun hret u hrest hp x => mem_trace_irqHandle (hfree hret u hrest) hp x }

/-- A failed initialization: the call is about to return -1, and there is no device. -/
theorem InitFails.step (h : s.InitFails a u) (hclient : ∃ g, Client u s.rpc g) :
    ∃ q s', s.step nvUartaAsync a = some s' ∧ s'.rpc = some (q, .ret (-1)) ∧
      s'.cdevs = { s.cdevs with pinst := Function.update s.cdevs.pinst u false } ∧
      s'.handler = s.handler := by
  obtain ⟨x, q, k, rfl, hprog, hinit⟩ := h
  obtain ⟨g, hclient⟩ := hclient
  rw [hprog] at hclient
  obtain ⟨g', hrule, hk⟩ := hclient false
  have hg' : g' = .failed := by
    cases hrule with
    | away hlocks _ => exact absurd rfl hlocks
    | init _ _ => rfl
  rw [hg'] at hk
  refine ⟨q, { s with
    rpc := some (q, .ret (-1))
    cdevs := { s.cdevs with pinst := Function.update s.cdevs.pinst u false } }, ?_, rfl, rfl, rfl⟩
  simp [System.step, hprog, Prog.advance, record, exec, hinit, eq_ret_of_failed hk, Op.event]

/-- It has the state mutex, and the handler is not inside. -/
theorem InitFails.held (h : s.InitFails a u) (hlocked : s.Locked u g w) :
    s.cdevs.stateMtx u = true ∧ ¬ Releases u (s.handler u) := by
  obtain ⟨x, q, k, rfl, hprog, -⟩ := h
  obtain ⟨holder, hclient, hhandler, -⟩ := hlocked
  rw [hprog] at hclient
  obtain ⟨g', hrule, -⟩ := hclient false
  have hg : g = .inside := by
    cases hrule with
    | away hlocks _ => exact absurd rfl hlocks
    | init _ _ => rfl
  rw [hg] at holder
  obtain ⟨hheld, hw⟩ := holder.of_inside
  exact ⟨hheld, not_releases_of_out (hw ▸ hhandler)⟩

/-- What is known of the client, after any step. -/
theorem Client.step (h : ∃ g, Client u s.rpc g) (hstep : s.step nvUartaAsync a = some s') :
    ∃ g, Client u s'.rpc g := by
  obtain ⟨g, h⟩ := h
  cases moves_of_step hstep with
  | call q _ => exact ⟨.out, follows_body_lock nvUartaAsync q u⟩
  | rpc hprog _ =>
      rw [hprog] at h
      obtain ⟨g', -, hk⟩ := h _
      exact ⟨g', hk⟩
  | reply _ => exact ⟨.out, rfl⟩
  | irq _ => exact ⟨g, h⟩
  | handler _ _ => exact ⟨g, h⟩

/-- The calls and the handlers may be interleaved in any way.  As long as no initialization fails,
no call keeps a state mutex; a call whose initialization fails returns -1 and leaves no device, but
it keeps the mutex. -/
theorem calls_release_iff {s₀ : System} (h : Started s₀) (as : List Act) :
    ((∀ s, Transition.Visits (AnyStep nvUartaAsync) s₀ as s → s.Unkept nvUartaAsync) ↔
      ∀ s a, Transition.Takes (AnyStep nvUartaAsync) s₀ as s a → ¬ ∃ u, s.InitFails a u) ∧
    ∀ s a u s', Transition.Takes (AnyStep nvUartaAsync) s₀ as s a → s.InitFails a u →
      s.step nvUartaAsync a = some s' →
        s'.cdevs.pinst u = false ∧ ∃ q, s'.rpc = some (q, .ret (-1)) := by
  have hlocked : ∀ u, ∃ g w, s₀.Locked u g w := fun u => ⟨_, _, locked_of_started h u⟩
  constructor
  · refine @Transition.visits_iff _ _ _ _ (fun s => ∀ u, ∃ g w, s.Locked u g w) _ _
      (fun _ => unkept_of_locked) ?_ ?_ _ hlocked as
    · intro s a _ s' hI hstep hgood u
      obtain ⟨g, w, hs⟩ := hI u
      exact hs.step hstep fun u' hfail => hgood ⟨u', hfail⟩
    · rintro s a hI ⟨u, hfail⟩
      obtain ⟨g, w, hs⟩ := hI u
      obtain ⟨hheld, hkeeps⟩ := hfail.held hs
      obtain ⟨q, s', hstep, hrpc, hcdevs, hhandler⟩ :=
        @InitFails.step nvUartaAsync s a u hfail ⟨g, hs.client⟩
      refine ⟨(), s', hstep, fun hunkept => hkeeps ?_⟩
      rw [← hhandler]
      exact hunkept.released (.inr ⟨q, -1, hrpc⟩) u (hcdevs ▸ hheld)
  · intro s a u s' htakes hfail hstep
    obtain ⟨es, os, hrun⟩ := htakes.run
    have hclient : ∃ g, Client u s.rpc g :=
      hrun.invariant (I := fun s => ∃ g, Client u s.rpc g) (fun _ _ _ _ hI hs => Client.step hI hs)
        ⟨_, (locked_of_started h u).client⟩
    obtain ⟨q, t, ht, hrpc, hcdevs, -⟩ := @InitFails.step nvUartaAsync s a u hfail hclient
    obtain rfl := Option.some.inj (hstep.symm.trans ht)
    exact ⟨hcdevs ▸ Function.update_self _ _ _, q, hrpc⟩

/-- `ps_cdev_init` finds a device or not; requests are accepted. -/
def device (init : Bool) : Outcome := ⟨init, 0, ⟨[], List.nodup_nil⟩⟩

/-- The component after `tk1_uart__init`, with all dataports connected. -/
def connected : System :=
  booted (((tk1UartInit.run (exec (device true)) (cleared fun _ _ => true)).map Prod.snd).getD
    (cleared fun _ _ => true))

theorem started_connected : Started connected := ⟨device true, fun _ _ => true, _, rfl, rfl⟩

/-- A first write whose request is accepted. -/
theorem calls_release_connected : Started connected ∧ ∀ s, Transition.Visits (AnyStep 0) connected
    (.call ⟨.write, 0, 5⟩ :: List.replicate 7 (.rpc (device true))) s → s.Unkept 0 := by
  refine ⟨started_connected, (calls_release_iff started_connected _).1.2 ?_⟩
  rintro s a htakes ⟨u, x, q, k, rfl, -, hinit⟩
  rcases List.mem_cons.1 htakes.mem with hcall | hrpc
  · cases hcall
  · obtain rfl := Act.rpc.inj (List.eq_of_mem_replicate hrpc)
    cases hinit

/-- A first write that finds no device. -/
def failedCall : List Act :=
  .call ⟨.write, 0, 5⟩ :: List.replicate 5 (.rpc (device false)) ++ [.reply]

/-- The next call, up to the state mutex. -/
def nextCall : List Act := failedCall ++ [.call ⟨.read, 0, 1⟩, .rpc (device true)]

theorem run_failedCall :
    (failedCall.foldlM (step 0) connected).map
      (fun s => (s.rpc, s.cdevs.stateMtx 0, s.cdevs.pinst 0, s.handler 0)) =
    some (none, true, false, .ret ()) := rfl

/-- After it has returned, the state mutex is held, and the next call waits for it. -/
theorem not_unkept_failedCall :
    ¬ (∀ as s, Transition.Visits (AnyStep 0) connected as s → s.Unkept 0) ∧ Started connected ∧
      (nextCall.foldlM (step 0) connected).map (fun s => s.step 0 (.rpc (device true))) =
        some none := by
  refine ⟨fun h => ?_, started_connected, rfl⟩
  obtain ⟨s, hrun, hs⟩ := Option.map_eq_some_iff.1 run_failedCall
  simp only [Prod.mk.injEq] at hs
  obtain ⟨hrpc, hheld, -, hhandler⟩ := hs
  have hreleases := (h failedCall s (.of_foldlM hrun)).released (.inl hrpc) 0 hheld
  rw [hhandler] at hreleases
  exact hreleases

end System

end Uart
end Tk1Bsp
