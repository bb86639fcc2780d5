import Mathlib.Data.List.Basic
import Tk1Bsp.Framework.Transition
import Tk1Bsp.Uart.Device

/-!
# The UART component and its threads

One thread serves the calls of the client, and each UART has a thread for its interrupt.  A step of
the system is one atomic operation of one of them, the start or the return of a call, or the start
of an interrupt handler.  `System.step` computes steps; `System.Moves` lists them.

`System.log` is a history of what matters to a caller, each event with its UART and direction.
-/

namespace Tk1Bsp
namespace Uart

/-- What happens on one line. -/
inductive Event
  | call
  | accept
  | complete (bytes : BitVec 32)
  | unlock (held : Bool)
  | return (ret : ℤ)
  deriving DecidableEq

/-- A history, oldest event first. -/
abbrev Log := List ((Fin 3 × Channel) × Event)

/-- The history of one line. -/
def Log.on (log : Log) (u : Fin 3) (c : Channel) : List Event :=
  log.filterMap fun p => if p.1 = (u, c) then some p.2 else none

namespace Log

variable {u : Fin 3} {c : Channel}

@[simp] theorem on_append (log log' : Log) : (log ++ log').on u c = log.on u c ++ log'.on u c :=
  List.filterMap_append

theorem on_singleton_self (e : Event) : Log.on [((u, c), e)] u c = [e] := by
  simp [on]

theorem on_singleton_of_ne {l : Fin 3 × Channel} (e : Event) (h : l ≠ (u, c)) :
    Log.on [(l, e)] u c = [] := by
  simp [on, h]

end Log

/-- The event that an operation is, if it is one. -/
def Op.event : (o : Op) → Ans o → Cdevs → Option ((Fin 3 × Channel) × Event)
  | .cdevStart u c _, ret, _ => if 0 ≤ ret then some ((u, c), .accept) else none
  | .callback u e, _, _ => some ((u, e.channel), .complete e.bytesTransfered)
  | .syncUnlock u c, _, d => some ((u, c), .unlock (d.line u c).syncMtx)
  | _, _, _ => none

/-- The calls of the client. -/
structure Call where
  channel : Channel
  uartNum : ℤ
  nbytes : ℤ

namespace Call

variable (q : Call) (nvUartaAsync : ℤ)

/-- The body of a call. -/
def body : Io ℤ :=
  match q.channel with
  | .write => tk1UartWrite nvUartaAsync q.uartNum q.nbytes
  | .read => tk1UartRead nvUartaAsync q.uartNum q.nbytes

theorem body_eq :
    q.body nvUartaAsync = tk1UartCall nvUartaAsync q.channel q.uartNum q.nbytes := by
  unfold body
  split <;> rename_i hc <;> rw [hc] <;> rfl

/-- The line that a call is about. -/
def target : Option (Fin 3 × Channel) :=
  (uartIndex nvUartaAsync q.uartNum).map fun u => (u, q.channel)

/-- Its start or its return, as an event of that line. -/
def event (e : Event) : Log := ((q.target nvUartaAsync).map fun l => (l, e)).toList

variable {q nvUartaAsync} {u : Fin 3} {c : Channel}

theorem on_event_of_target (e : Event) (h : q.target nvUartaAsync = some (u, c)) :
    (q.event nvUartaAsync e).on u c = [e] := by
  rw [event, h]
  exact Log.on_singleton_self e

theorem on_event_of_ne (e : Event) (h : q.target nvUartaAsync ≠ some (u, c)) :
    (q.event nvUartaAsync e).on u c = [] := by
  rw [event]
  cases hl : q.target nvUartaAsync with
  | none => rfl
  | some l => exact Log.on_singleton_of_ne e fun heq => h (heq ▸ hl)

end Call

/-- The component with its threads: the call the client is in and what is left of it, and what is
left of each interrupt handler. -/
structure System where
  cdevs : Cdevs
  log : Log
  rpc : Option (Call × Io ℤ)
  handler : Fin 3 → Io Unit

/-- What can happen. -/
inductive Act
  | call (q : Call)
  | rpc (x : Outcome)
  | reply
  | irq (u : Fin 3)
  | handler (u : Fin 3) (x : Outcome)

/-- Perform an operation and remember it. -/
def record (x : Outcome) (o : Op) (s : Cdevs × Log) : Option (Ans o × (Cdevs × Log)) :=
  (exec x o s.1).map fun rd => (rd.1, rd.2, s.2 ++ (o.event rd.1 s.1).toList)

theorem record_eq_some {x : Outcome} {o : Op} {r : Ans o} {s s' : Cdevs × Log}
    (h : record x o s = some (r, s')) :
    exec x o s.1 = some (r, s'.1) ∧ s'.2 = s.2 ++ (o.event r s.1).toList := by
  obtain ⟨rd, hexec, hrd⟩ := Option.map_eq_some_iff.1 h
  obtain ⟨rfl, rfl⟩ := Prod.mk.inj hrd
  exact ⟨hexec, rfl⟩

namespace System

variable (nvUartaAsync : ℤ)

/-- One step; nothing if it cannot be taken. -/
def step (s : System) : Act → Option System
  | .call q =>
      match s.rpc with
      | none =>
          some { s with
            rpc := some (q, q.body nvUartaAsync)
            log := s.log ++ q.event nvUartaAsync .call }
      | some _ => none
  | .rpc x =>
      match s.rpc with
      | none => none
      | some (q, p) =>
          (p.advance (record x) (s.cdevs, s.log)).map fun ps =>
            { s with rpc := some (q, ps.1), cdevs := ps.2.1, log := ps.2.2 }
  | .reply =>
      match s.rpc with
      | some (q, .ret r) =>
          some { s with rpc := none, log := s.log ++ q.event nvUartaAsync (.return r) }
      | _ => none
  | .irq u =>
      match s.handler u with
      | .ret () => some { s with handler := Function.update s.handler u (tk1UartIrqHandle u) }
      | .call _ _ => none
  | .handler u x =>
      ((s.handler u).advance (record x) (s.cdevs, s.log)).map fun ps =>
        { s with
          handler := Function.update s.handler u ps.1
          cdevs := ps.2.1
          log := ps.2.2 }

/-- The platform driver calls back with a descriptor that asks for some bytes. -/
def Admissible : Act → Prop
  | .handler _ x => ∀ e ∈ x.completions.list, 0 < e.bytesRequested
  | _ => True

instance (a : Act) : Decidable (Admissible a) :=
  match a with
  | .handler _ x => inferInstanceAs (Decidable (∀ e ∈ x.completions.list, 0 < e.bytesRequested))
  | .call _ | .rpc _ | .reply | .irq _ => .isTrue trivial

/-- The step relation. -/
def Step (s : System) (a : Act) (_ : Unit) (s' : System) : Prop :=
  s.step nvUartaAsync a = some s' ∧ Admissible a

/-- No call has been made, and no handler runs. -/
def booted (d : Cdevs) : System := ⟨d, [], none, fun _ => .ret ()⟩

/-- The component after `tk1_uart__init`. -/
def Started (s : System) : Prop :=
  ∃ x buff d, tk1UartInit.run (exec x) (cleared buff) = some ((), d) ∧ s = booted d

/-- What a step can be. -/
inductive Moves (s : System) : Act → System → Prop
  | call (q : Call) (hidle : s.rpc = none) :
      Moves s (.call q)
        { s with
          rpc := some (q, q.body nvUartaAsync)
          log := s.log ++ q.event nvUartaAsync .call }
  | rpc {x : Outcome} {q : Call} {o : Op} {k : Ans o → Io ℤ} {r : Ans o} {d : Cdevs}
      (hprog : s.rpc = some (q, .call o k)) (hexec : exec x o s.cdevs = some (r, d)) :
      Moves s (.rpc x)
        { s with rpc := some (q, k r), cdevs := d, log := s.log ++ (o.event r s.cdevs).toList }
  | reply {q : Call} {r : ℤ} (hprog : s.rpc = some (q, .ret r)) :
      Moves s .reply { s with rpc := none, log := s.log ++ q.event nvUartaAsync (.return r) }
  | irq {u : Fin 3} (hrest : s.handler u = .ret ()) :
      Moves s (.irq u) { s with handler := Function.update s.handler u (tk1UartIrqHandle u) }
  | handler {u : Fin 3} {x : Outcome} {o : Op} {k : Ans o → Io Unit} {r : Ans o} {d : Cdevs}
      (hprog : s.handler u = .call o k) (hexec : exec x o s.cdevs = some (r, d)) :
      Moves s (.handler u x)
        { s with
          handler := Function.update s.handler u (k r)
          cdevs := d
          log := s.log ++ (o.event r s.cdevs).toList }

variable {nvUartaAsync}

theorem step_of_ite {s : System} {a : Act} {s' : System}
    (h : (if Admissible a then s.step nvUartaAsync a else none) = some s') :
    Step nvUartaAsync s a () s' := by
  split at h
  · rename_i hadm
    exact ⟨h, hadm⟩
  · cases h

theorem moves_of_step {s s' : System} {a : Act} (h : s.step nvUartaAsync a = some s') :
    Moves nvUartaAsync s a s' := by
  cases a with
  | call q =>
      simp only [step] at h
      split at h
      · rename_i hidle
        obtain rfl := Option.some.inj h
        exact .call q hidle
      · cases h
  | rpc x =>
      simp only [step] at h
      split at h
      · cases h
      · rename_i hprog
        obtain ⟨⟨p', d, log⟩, hadv, rfl⟩ := Option.map_eq_some_iff.1 h
        obtain ⟨o, k, r, rfl, hrec, rfl⟩ := Prog.advance_eq_some hadv
        obtain ⟨hexec, rfl⟩ := record_eq_some hrec
        exact .rpc hprog hexec
  | reply =>
      simp only [step] at h
      split at h
      · rename_i hprog
        obtain rfl := Option.some.inj h
        exact .reply hprog
      · cases h
  | irq u =>
      simp only [step] at h
      split at h
      · rename_i hrest
        obtain rfl := Option.some.inj h
        exact .irq hrest
      · cases h
  | handler u x =>
      obtain ⟨⟨p', d, log⟩, hadv, rfl⟩ := Option.map_eq_some_iff.1 h
      obtain ⟨o, k, r, hprog, hrec, rfl⟩ := Prog.advance_eq_some hadv
      obtain ⟨hexec, rfl⟩ := record_eq_some hrec
      exact .handler hprog hexec

end System

end Uart
end Tk1Bsp
