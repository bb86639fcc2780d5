import Mathlib.Data.Fintype.Prod
import Tk1Bsp.Framework.LinkedList

/-!
# The NVTMR time server

This file embeds `components/TimeServerNVTMR/src/time_server.c`.  The server owns
`timersPerClient` timers for each of its clients and threads the armed ones of all clients on one
doubly linked list, sorted by deadline.  Every client call takes the `time_server` mutex, edits
the list and releases it; the millisecond interrupt advances the clock and drains the list.

A `client_timer_t *` is a pair of a client and a timer number, and the two arrays `post_init`
allocates become one function on such pairs; `NULL` is `none`.  Times are `uint64_t`, so
deadlines and the clock wrap.  A C call that does not return normally is an error:

* `assertFailed`: an `assert` of the source fails;
* `blocked`: `time_server_lock` is called while the mutex is held;
* `noReturn`: a loop has not ended within the iterations allowed.

For the walk in `insert_timer` the allowance is the number of timers plus one, which a walk can
only exceed by going round a cycle.  The loop of `signal_clients` takes its allowance as an
argument: nothing in the source bounds it.
-/

namespace Tk1Bsp
namespace TimeServer

/-! ## Data -/

/-- `NS_IN_S` of the time library. -/
def nsInS : ℕ := 1000000000

/-- `TIMER_FREQUENCY`: timer interrupts per second. -/
def timerFrequency : ℕ := 1000

/-- `TIMER_PERIOD`: nanoseconds between two timer interrupts. -/
@[irreducible] def timerPeriod : BitVec 64 := BitVec.ofNat 64 (nsInS / timerFrequency)

@[simp] theorem timerPeriod_toNat : timerPeriod.toNat = 1000000 := by
  unfold timerPeriod
  rfl

/-- `BIT(n)`.  From 32 on the C shift is undefined; the register shift of the target yields 0,
and so does this one. -/
def bit (n : ℕ) : BitVec 32 := 1#32 <<< n

/-- The `TIMER_TYPE_*` constants. -/
inductive TimerType
  | off
  | periodic
  | absolute
  | relative
  deriving DecidableEq, Repr

/-- A non-null `client_timer_t *`: the client that owns the timer, and which of its timers. -/
abbrev TimerRef (nc nt : ℕ) := Fin nc × Fin nt

/-- The fields of `client_timer_t` that are not links. -/
structure TimerBody (nc nt : ℕ) where
  id : Fin nt
  clientId : Fin nc
  timerType : TimerType
  periodicNs : BitVec 64
  timeoutTime : BitVec 64
  deriving DecidableEq

/-- `client_timer_t`. -/
structure ClientTimer (nc nt : ℕ) extends TimerBody nc nt where
  prev : Option (TimerRef nc nt)
  next : Option (TimerRef nc nt)

/-- The state of the component: the client arrays, the list head, the clock and the mutex. -/
structure Server (nc nt : ℕ) where
  timers : TimerRef nc nt → ClientTimer nc nt
  completed : Fin nc → BitVec 32
  timerHead : Option (TimerRef nc nt)
  theCurrentTime : BitVec 64
  timeServerHeld : Bool

/-- Why a call does not return normally. -/
inductive Fault
  | assertFailed
  | blocked
  | noReturn
  deriving DecidableEq, Repr

/-- One `the_timer_emit(client_id + 1)` of `signal_client`, with the timer it is for, the deadline
that timer had, and the `current_time` argument of the call. -/
structure Signal (nc nt : ℕ) where
  clientId : Fin nc
  id : Fin nt
  timeoutTime : BitVec 64
  currentTime : BitVec 64
  deriving DecidableEq

/-- The badge that is signalled. -/
def Signal.badge {nc nt : ℕ} (sig : Signal nc nt) : ℕ := sig.clientId + 1

/-- The test `tid >= timers_per_client || tid < 0`; a timer number that passes is an index. -/
def timerIndex (nt : ℕ) (tid : ℤ) : Option (Fin nt) :=
  if h : tid ≥ nt ∨ tid < 0 then none else some ⟨tid.toNat, by omega⟩

variable {nc nt : ℕ}

namespace Server

/-- The non-link fields of a timer. -/
def body (s : Server nc nt) (t : TimerRef nc nt) : TimerBody nc nt := (s.timers t).toTimerBody

/-- The pointers of the timer list. -/
def links (s : Server nc nt) : Links (TimerRef nc nt) where
  head := s.timerHead
  prev t := (s.timers t).prev
  next t := (s.timers t).next

/-- Write back edited pointers. -/
def setLinks (s : Server nc nt) (L : Links (TimerRef nc nt)) : Server nc nt :=
  { s with
    timerHead := L.head
    timers := fun t => { s.timers t with prev := L.prev t, next := L.next t } }

/-- Write the non-link fields of one timer. -/
def setBody (s : Server nc nt) (t : TimerRef nc nt) (b : TimerBody nc nt) : Server nc nt :=
  { s with timers := Function.update s.timers t { s.timers t with toTimerBody := b } }

/-! ## The list operations -/

/-- `remove_timer`: bypass the timer.  A timer without predecessor is asserted to be the head. -/
def removeTimer (s : Server nc nt) (t : TimerRef nc nt) : Except Fault (Server nc nt) :=
  if (s.timers t).prev = none ∧ s.timerHead ≠ some t then .error .assertFailed
  else .ok (s.setLinks (s.links.unlink t))

/-- `insert_timer`: walk past the timers with a smaller deadline and link the timer there. -/
def insertTimer (s : Server nc nt) (t : TimerRef nc nt) : Except Fault (Server nc nt) :=
  match s.links.seek (fun u => decide ((s.body u).timeoutTime < (s.body t).timeoutTime))
      (Fintype.card (TimerRef nc nt) + 1) none s.timerHead with
  | none => .error .noReturn
  | some (current, next) => .ok (s.setLinks (s.links.linkBetween t current next))

/-! ## The interrupt -/

/-- `update_current_time_ns`. -/
def updateCurrentTimeNs (s : Server nc nt) (ns : BitVec 64) : Server nc nt :=
  { s with theCurrentTime := s.theCurrentTime + ns }

/-- `time_server_lock`. -/
def timeServerLock (s : Server nc nt) : Except Fault (Server nc nt) :=
  if s.timeServerHeld then .error .blocked else .ok { s with timeServerHeld := true }

/-- `time_server_unlock`. -/
def timeServerUnlock (s : Server nc nt) : Server nc nt := { s with timeServerHeld := false }

/-- `client_state[client_id].completed |= BIT(id)`. -/
def markCompleted (s : Server nc nt) (c : Fin nc) (id : ℕ) : Server nc nt :=
  { s with completed := Function.update s.completed c (s.completed c ||| bit id) }

/-- `signal_client`: signal the owner, take the timer off the list, and put it back one period
later if it is periodic. -/
def signalClient (s : Server nc nt) (t : TimerRef nc nt) (currentTime : BitVec 64) :
    Except Fault (Signal nc nt × Server nc nt) := do
  let timer := s.body t
  let sig : Signal nc nt := ⟨timer.clientId, timer.id, timer.timeoutTime, currentTime⟩
  let s ← (s.markCompleted timer.clientId timer.id).removeTimer t
  match timer.timerType with
  | .off => .error .assertFailed
  | .periodic => do
      let s := s.setBody t { timer with timeoutTime := timer.timeoutTime + timer.periodicNs }
      let s ← s.insertTimer t
      return (sig, s)
  | .absolute | .relative => return (sig, s.setBody t { timer with timerType := .off })

/-- The loop test of `signal_clients`: the head of the list, if its deadline has come. -/
def dueHead (s : Server nc nt) (currentTime : BitVec 64) : Option (TimerRef nc nt) :=
  match s.timerHead with
  | some t => if (s.body t).timeoutTime ≤ currentTime then some t else none
  | none => none

/-- The first `n` iterations of the loop of `signal_clients`, fewer if the loop ends before. -/
def drain (currentTime : BitVec 64) :
    ℕ → Server nc nt → Except Fault (List (Signal nc nt) × Server nc nt)
  | 0, s => .ok ([], s)
  | n + 1, s =>
      match s.dueHead currentTime with
      | none => .ok ([], s)
      | some t => do
          let (sig, s) ← s.signalClient t currentTime
          let (sigs, s) ← drain currentTime n s
          return (sig :: sigs, s)

/-- `signal_clients`, if its loop ends within `fuel` iterations. -/
def signalClients (fuel : ℕ) (s : Server nc nt) (currentTime : BitVec 64) :
    Except Fault (List (Signal nc nt) × Server nc nt) := do
  let (sigs, s) ← drain currentTime fuel s
  if (s.dueHead currentTime).isSome then .error .noReturn else return (sigs, s)

/-- `irq_handle`, up to the loop of `signal_clients`: take the mutex and advance the clock. -/
def irqEnter (s : Server nc nt) : Except Fault (Server nc nt) := do
  let s ← s.timeServerLock
  return s.updateCurrentTimeNs timerPeriod

/-- `irq_handle`.  Acknowledging the device and the interrupt does not touch the server state. -/
def irqHandle (fuel : ℕ) (s : Server nc nt) :
    Except Fault (List (Signal nc nt) × Server nc nt) := do
  let s ← s.irqEnter
  let (sigs, s) ← s.signalClients fuel s.theCurrentTime
  return (sigs, s.timeServerUnlock)

/-! ## The client calls -/

/-- The guarded removal all setters begin with: `if (t->timer_type != TIMER_TYPE_OFF)`. -/
def removeIfArmed (s : Server nc nt) (t : TimerRef nc nt) : Except Fault (Server nc nt) :=
  if (s.body t).timerType ≠ .off then s.removeTimer t else .ok s

/-- What `_oneshot_relative`, `_oneshot_absolute` and `_periodic` share: reject a bad timer
number, take an armed timer off the list, set its fields from the clock, and insert it. -/
def arm (s : Server nc nt) (cid : Fin nc) (tid : ℤ)
    (set : BitVec 64 → TimerBody nc nt → TimerBody nc nt) : Except Fault (ℤ × Server nc nt) :=
  match timerIndex nt tid with
  | none => .ok (-1, s)
  | some j => do
      let s ← s.timeServerLock
      let t := (cid, j)
      let s ← s.removeIfArmed t
      let s := s.setBody t (set s.theCurrentTime (s.body t))
      let s ← s.insertTimer t
      return (0, s.timeServerUnlock)

/-- `_oneshot_relative`. -/
def oneshotRelative (s : Server nc nt) (cid : Fin nc) (tid : ℤ) (ns : BitVec 64) :
    Except Fault (ℤ × Server nc nt) :=
  s.arm cid tid fun now t => { t with timerType := .relative, timeoutTime := now + ns }

/-- `_oneshot_absolute`. -/
def oneshotAbsolute (s : Server nc nt) (cid : Fin nc) (tid : ℤ) (ns : BitVec 64) :
    Except Fault (ℤ × Server nc nt) :=
  s.arm cid tid fun _ t => { t with timerType := .absolute, timeoutTime := ns }

/-- `_periodic`. -/
def periodic (s : Server nc nt) (cid : Fin nc) (tid : ℤ) (ns : BitVec 64) :
    Except Fault (ℤ × Server nc nt) :=
  s.arm cid tid fun now t =>
    { t with timerType := .periodic, periodicNs := ns, timeoutTime := now + ns }

/-- `_stop`. -/
def stop (s : Server nc nt) (cid : Fin nc) (tid : ℤ) : Except Fault (ℤ × Server nc nt) :=
  match timerIndex nt tid with
  | none => .ok (-1, s)
  | some j => do
      let s ← s.timeServerLock
      let t := (cid, j)
      let s ← if (s.body t).timerType ≠ .off then do
          let s ← s.removeTimer t
          pure (s.setBody t { s.body t with timerType := .off })
        else .ok s
      return (0, s.timeServerUnlock)

/-- `_completed`: hand out the mask of expired timers and clear it. -/
def takeCompleted (s : Server nc nt) (cid : Fin nc) : Except Fault (BitVec 32 × Server nc nt) := do
  let s ← s.timeServerLock
  let ret := s.completed cid
  let s := { s with completed := Function.update s.completed cid 0 }
  return (ret, s.timeServerUnlock)

/-- `_time`; it reads the clock without the mutex. -/
def time (s : Server nc nt) (_cid : Fin nc) : BitVec 64 := s.theCurrentTime

end Server

/-! ## The component as a transition system -/

/-- The `the_timer_*` calls a client can make.  The client is the sender's badge minus one. -/
inductive Call
  | oneshotRelative (tid : ℤ) (ns : BitVec 64)
  | oneshotAbsolute (tid : ℤ) (ns : BitVec 64)
  | periodic (tid : ℤ) (ns : BitVec 64)
  | stop (tid : ℤ)
  | completed
  | time
  | tscFrequency
  deriving DecidableEq

/-- What can happen to the server: a client call, or the timer interrupt. -/
inductive Event (nc : ℕ)
  | call (cid : Fin nc) (op : Call)
  | tick
  deriving DecidableEq

/-- What an event lets the outside see: the value of a call, or the signals of an interrupt. -/
inductive Output (nc nt : ℕ)
  | ret (r : ℤ)
  | mask (m : BitVec 32)
  | ns (t : BitVec 64)
  | signals (sigs : List (Signal nc nt))
  deriving DecidableEq

namespace Server

/-- The RPC handlers. -/
def serve (s : Server nc nt) (cid : Fin nc) : Call → Except Fault (Output nc nt × Server nc nt)
  | .oneshotRelative tid ns => do
      let (r, s) ← s.oneshotRelative cid tid ns
      return (.ret r, s)
  | .oneshotAbsolute tid ns => do
      let (r, s) ← s.oneshotAbsolute cid tid ns
      return (.ret r, s)
  | .periodic tid ns => do
      let (r, s) ← s.periodic cid tid ns
      return (.ret r, s)
  | .stop tid => do
      let (r, s) ← s.stop cid tid
      return (.ret r, s)
  | .completed => do
      let (m, s) ← s.takeCompleted cid
      return (.mask m, s)
  | .time => .ok (.ns (s.time cid), s)
  | .tscFrequency => .ok (.ns (BitVec.ofNat 64 timerFrequency), s)

/-- One event, the loop of an interrupt being allowed `fuel` iterations. -/
def exec (fuel : ℕ) (s : Server nc nt) : Event nc → Except Fault (Output nc nt × Server nc nt)
  | .call cid op => s.serve cid op
  | .tick => do
      let (sigs, s) ← s.irqHandle fuel
      return (.signals sigs, s)

/-- `s` handles `e`, returns `o` and is left as `s'`. -/
def Step (s : Server nc nt) (e : Event nc) (o : Output nc nt) (s' : Server nc nt) : Prop :=
  ∃ fuel, s.exec fuel e = .ok (o, s')

/-- The client arrays as `post_init` fills them, with the mutex it takes first still held. -/
def booted (nc nt : ℕ) : Server nc nt where
  timers t := ⟨⟨t.2, t.1, .off, 0, 0⟩, none, none⟩
  completed _ := 0
  timerHead := none
  theCurrentTime := 0
  timeServerHeld := true

/-- `post_init`.  The constants `TMR0 .. TMR9` of the platform library are a parameter; a device
number that is none of them leaves through the `default` case, past the unlock. -/
def postInit (tmr : Fin 10 → ℤ) (nvtmrNumber : ℤ) : Server nc nt :=
  if ∃ k, tmr k = nvtmrNumber then (booted nc nt).timeServerUnlock else booted nc nt

/-- The states a successful `post_init` leaves. -/
def Initial (s : Server nc nt) : Prop := ∃ tmr k, s = postInit tmr (tmr k)

end Server

end TimeServer
end Tk1Bsp
