import Tk1Bsp.Framework.Drain
import Tk1Bsp.Framework.Transition
import Tk1Bsp.TimeServer.TimerList

/-!
# The server as a bank of independent timers

What the list is for is to serve the timers without looking at all of them.  Forgetting it leaves
a `Bank`: one entry per timer, the masks of expired timers, and the clock.  A call writes one
entry, and an interrupt serves due entries one at a time until none is due, in an order that the
bank leaves open.

`Server.serve_refines` and `Server.drain_refines` say that the linked list is an implementation
of the bank: from a well-formed state every call succeeds and does to the bank what
`Bank.serve` says, and every iteration of the interrupt's loop serves one due entry.  So all
asserts hold, no call blocks, and the rest of the time server can be discussed without pointers.
-/

namespace Tk1Bsp
namespace TimeServer

variable {nc nt : ℕ}

/-! ## Entries -/

/-- What one timer is set to, with deadlines on the 64-bit clock. -/
inductive Entry
  | off
  | oneShot (d : BitVec 64)
  | periodic (d p : BitVec 64)
  deriving DecidableEq

namespace Entry

/-- The entry a timer structure stands for. -/
def ofBody (b : TimerBody nc nt) : Entry :=
  match b.timerType with
  | .off => .off
  | .periodic => .periodic b.timeoutTime b.periodicNs
  | .absolute | .relative => .oneShot b.timeoutTime

/-- The deadline has come. -/
def Due (now : BitVec 64) : Entry → Prop
  | off => False
  | oneShot d => d ≤ now
  | periodic d _ => d ≤ now

instance (now : BitVec 64) : DecidablePred (Due now)
  | off => inferInstanceAs (Decidable False)
  | oneShot d => inferInstanceAs (Decidable (d ≤ now))
  | periodic d _ => inferInstanceAs (Decidable (d ≤ now))

/-- What a signal leaves: nothing of a one-shot timer, a periodic one a period later. -/
def fire : Entry → Entry
  | periodic d p => periodic (d + p) p
  | _ => off

/-- The deadline of an armed entry. -/
def deadline : Entry → BitVec 64
  | off => 0
  | oneShot d => d
  | periodic d _ => d

theorem ofBody_eq_off_iff {b : TimerBody nc nt} : ofBody b = off ↔ b.timerType = .off := by
  unfold ofBody
  split <;> simp_all

theorem due_ofBody {b : TimerBody nc nt} (h : b.timerType ≠ .off) {now : BitVec 64} :
    (ofBody b).Due now ↔ b.timeoutTime ≤ now := by
  unfold ofBody
  split
  · contradiction
  · exact Iff.rfl
  · exact Iff.rfl
  · exact Iff.rfl

theorem deadline_ofBody {b : TimerBody nc nt} (h : b.timerType ≠ .off) :
    (ofBody b).deadline = b.timeoutTime := by
  unfold ofBody
  split
  · contradiction
  · rfl
  · rfl
  · rfl

end Entry

/-! ## The bank -/

/-- The server without its list. -/
@[ext] structure Bank (nc nt : ℕ) where
  entry : TimerRef nc nt → Entry
  completed : Fin nc → BitVec 32
  now : BitVec 64

/-- Forget the list and the mutex. -/
def Server.bank (s : Server nc nt) : Bank nc nt where
  entry t := Entry.ofBody (s.body t)
  completed := s.completed
  now := s.theCurrentTime

namespace Bank

/-- A call that sets a timer overwrites its entry, unless the timer number is out of range. -/
def write (b : Bank nc nt) (cid : Fin nc) (tid : ℤ) (e : Entry) : Output nc nt × Bank nc nt :=
  match timerIndex nt tid with
  | none => (.ret (-1), b)
  | some j => (.ret 0, { b with entry := Function.update b.entry (cid, j) e })

/-- The client calls on a bank. -/
def serve (b : Bank nc nt) (cid : Fin nc) : Call → Output nc nt × Bank nc nt
  | .oneshotRelative tid ns => b.write cid tid (.oneShot (b.now + ns))
  | .oneshotAbsolute tid ns => b.write cid tid (.oneShot ns)
  | .periodic tid ns => b.write cid tid (.periodic (b.now + ns) ns)
  | .stop tid => b.write cid tid .off
  | .completed =>
      (.mask (b.completed cid), { b with completed := Function.update b.completed cid 0 })
  | .time => (.ns b.now, b)
  | .tscFrequency => (.ns (BitVec.ofNat 64 timerFrequency), b)

/-- The clock the next interrupt serves the timers at. -/
def nextNow (b : Bank nc nt) : BitVec 64 := b.now + timerPeriod

end Bank

/-- A log entry of served timers, seen as the signal it sends at time `now`. -/
def signalOf (now : BitVec 64) (e : TimerRef nc nt × Entry) : Signal nc nt :=
  ⟨e.1.1, e.1.2, e.2.deadline, now⟩

/-- The mask a client has after some signals: the bits of the timers signalled are added. -/
def addCompleted (sigs : List (Signal nc nt)) (c : Fin nc) (m : BitVec 32) : BitVec 32 :=
  (sigs.filter (fun sig => sig.clientId = c)).foldl (fun m sig => m ||| bit sig.id) m

@[simp] theorem addCompleted_nil (c : Fin nc) (m : BitVec 32) :
    addCompleted ([] : List (Signal nc nt)) c m = m := rfl

theorem addCompleted_cons (sig : Signal nc nt) (sigs : List (Signal nc nt)) (c : Fin nc)
    (m : BitVec 32) :
    addCompleted (sig :: sigs) c m =
      addCompleted sigs c (if sig.clientId = c then m ||| bit sig.id else m) := by
  unfold addCompleted
  by_cases h : sig.clientId = c <;> simp [h]

/-- A mask built by adding bits has the bits added, in whatever order. -/
theorem getLsbD_foldl_or {β : Type*} (f : β → BitVec 32) (l : List β) (m : BitVec 32) (i : ℕ) :
    (l.foldl (fun m x => m ||| f x) m).getLsbD i =
      (m.getLsbD i || l.any (fun x => (f x).getLsbD i)) := by
  induction l generalizing m with
  | nil => simp
  | cons x l ih => simp [ih, Bool.or_assoc]

theorem getLsbD_addCompleted (sigs : List (Signal nc nt)) (c : Fin nc) (m : BitVec 32) (i : ℕ) :
    (addCompleted sigs c m).getLsbD i =
      (m.getLsbD i || sigs.any (fun sig => sig.clientId = c && (bit sig.id).getLsbD i)) := by
  unfold addCompleted
  rw [getLsbD_foldl_or, List.any_filter]

/-- The number of `the_timer_emit` calls to a client in an output. -/
def Output.emits (c : Fin nc) : Output nc nt → ℕ
  | .signals sigs => sigs.countP (fun sig => sig.clientId = c)
  | _ => 0

/-- A client is signalled as often as its timers are served. -/
theorem emits_signals (now : BitVec 64) (c : Fin nc) (log : List (TimerRef nc nt × Entry)) :
    (Output.signals (log.map (signalOf now))).emits c =
      ∑ j : Fin nt, (Fires.served (c, j) log).length := by
  show (log.map (signalOf now)).countP (fun sig => sig.clientId = c) = _
  induction log with
  | nil => simp
  | cons e log ih =>
      have hserved : ∀ j : Fin nt, (Fires.served (c, j) (e :: log)).length =
          (Fires.served (c, j) log).length + if e.1 = (c, j) then 1 else 0 := by
        intro j
        by_cases h : e.1 = (c, j) <;> simp [Fires.served, h]
      have hone : (∑ j : Fin nt, if e.1 = (c, j) then 1 else 0) = if e.1.1 = c then 1 else 0 := by
        by_cases h : e.1.1 = c
        · subst h
          simp [Prod.ext_iff]
        · simp [Prod.ext_iff, h]
      simp only [hserved, Finset.sum_add_distrib, hone, ← ih, List.map_cons, List.countP_cons]
      by_cases h : e.1.1 = c <;> simp [signalOf, h]

/-- Some iterations of the interrupt's loop at time `now`, which served `log` and lead from `b`
to `b'`. -/
structure Bank.Drained (now : BitVec 64) (b : Bank nc nt) (log : List (TimerRef nc nt × Entry))
    (b' : Bank nc nt) : Prop where
  fires : Fires (Entry.Due now) Entry.fire b.entry log b'.entry
  completed : ∀ c, b'.completed c = addCompleted (log.map (signalOf now)) c (b.completed c)
  now_eq : b'.now = b.now

/-- The bits a client's mask gains are those of its timers that were served. -/
theorem Bank.Drained.getLsbD_completed {now : BitVec 64} {b b' : Bank nc nt}
    {log : List (TimerRef nc nt × Entry)} (h : b.Drained now log b') (c : Fin nc) (i : ℕ) :
    (b'.completed c).getLsbD i =
      ((b.completed c).getLsbD i ||
        decide (∃ j : Fin nt, Fires.served (c, j) log ≠ [] ∧ (bit j).getLsbD i)) := by
  rw [h.completed, getLsbD_addCompleted]
  congr 1
  rw [Bool.eq_iff_iff, List.any_eq_true, decide_eq_true_iff]
  constructor
  · rintro ⟨sig, hsig, hbit⟩
    obtain ⟨e, he, rfl⟩ := List.mem_map.1 hsig
    simp only [Bool.and_eq_true, decide_eq_true_eq] at hbit
    obtain ⟨rfl, hbit⟩ := hbit
    refine ⟨e.1.2, List.ne_nil_of_mem (a := e.2) ?_, hbit⟩
    exact List.mem_map.2 ⟨e, List.mem_filter.2 ⟨he, by simp [signalOf]⟩, rfl⟩
  · rintro ⟨j, hne, hbit⟩
    obtain ⟨a, ha⟩ := List.exists_mem_of_ne_nil _ hne
    obtain ⟨e, he, -⟩ := List.mem_map.1 ha
    obtain ⟨he, hej⟩ := List.mem_filter.1 he
    have hej : e.1 = (c, j) := by simpa using hej
    exact ⟨_, List.mem_map_of_mem he, by simp [signalOf, hej, hbit]⟩

/-- A whole interrupt: the clock advances, and due entries are served until none is left. -/
structure Bank.Tick (b : Bank nc nt) (log : List (TimerRef nc nt × Entry)) (b' : Bank nc nt) :
    Prop where
  drained : Bank.Drained b.nextNow { b with now := b.nextNow } log b'
  idle : ∀ t, ¬ (b'.entry t).Due b.nextNow

/-- The bank as a transition system. -/
def Bank.Step (b : Bank nc nt) : Event nc → Output nc nt → Bank nc nt → Prop
  | .call cid op, o, b' => (o, b') = b.serve cid op
  | .tick, o, b' => ∃ log, b.Tick log b' ∧ o = .signals (log.map (signalOf b.nextNow))

/-! ## The list implements the bank -/

namespace Server

variable {s : Server nc nt} {t : TimerRef nc nt}

theorem bank_setBody (b : TimerBody nc nt) :
    (s.setBody t b).bank =
      { s.bank with entry := Function.update s.bank.entry t (Entry.ofBody b) } := by
  refine Bank.ext ?_ rfl rfl
  funext u
  by_cases h : u = t
  · subst h
    simp [bank]
  · simp [bank, Function.update_of_ne h]

theorem armed_iff : s.Armed t ↔ s.bank.entry t ≠ .off := by
  unfold Armed
  rw [ne_eq, ← Entry.ofBody_eq_off_iff]
  exact Iff.rfl

/-- Which timers are armed, after new fields are stored in one that is not listed. -/
theorem armed_setBody_iff (b : TimerBody nc nt) (u : TimerRef nc nt) :
    (s.setBody t b).Armed u ↔ (s.Armed u ∧ u ≠ t) ∨ (u = t ∧ b.timerType ≠ .off) := by
  unfold Armed
  rw [body_setBody]
  by_cases hu : u = t
  · subst hu
    simp
  · simp [hu]

/-- New fields that carry the labels of their timer. -/
theorem labels_setBody (hlabels : ∀ u, (s.body u).clientId = u.1 ∧ (s.body u).id = u.2)
    {b : TimerBody nc nt} (hc : b.clientId = t.1) (hi : b.id = t.2) (u : TimerRef nc nt) :
    ((s.setBody t b).body u).clientId = u.1 ∧ ((s.setBody t b).body u).id = u.2 := by
  rw [body_setBody]
  by_cases hu : u = t
  · subst hu
    rw [Function.update_self]
    exact ⟨hc, hi⟩
  · rw [Function.update_of_ne hu]
    exact hlabels u

/-- Storing new fields in an unlisted timer and linking it in leaves a well-formed server. -/
theorem setBody_insertTimer {l : List (TimerRef nc nt)}
    (h : s.Holds (fun u => s.Armed u ∧ u ≠ t) l)
    (hlabels : ∀ u, (s.body u).clientId = u.1 ∧ (s.body u).id = u.2) {b : TimerBody nc nt}
    (hb : b.timerType ≠ .off) (hc : b.clientId = t.1) (hi : b.id = t.2) :
    ∃ s', (s.setBody t b).insertTimer t = .ok s' ∧ s'.WellFormed ∧
      s'.bank = (s.setBody t b).bank ∧ s'.timeServerHeld = s.timeServerHeld := by
  have hholds : (s.setBody t b).Holds (fun u => s.Armed u ∧ u ≠ t) l := by
    refine h.congr (links_setBody s t b) (fun u hu => ?_) (fun _ => Iff.rfl)
    rw [body_setBody, Function.update_of_ne hu.2]
  obtain ⟨L, hok, hL⟩ := hholds.insertTimer (t := t) (by simp)
  refine ⟨_, hok, ⟨⟨_, hL.congr rfl (fun _ _ => rfl) fun u => ?_⟩, labels_setBody hlabels hc hi⟩,
    rfl, rfl⟩
  have harmed : (s.setBody t b).Armed u ↔ (s.Armed u ∧ u ≠ t) ∨ u = t := by
    rw [armed_setBody_iff]
    exact or_congr_right (and_iff_left hb)
  exact harmed.symm

/-- Storing an off timer that is not listed leaves a well-formed server. -/
theorem setBody_off {l : List (TimerRef nc nt)} (h : s.Holds (fun u => s.Armed u ∧ u ≠ t) l)
    (hlabels : ∀ u, (s.body u).clientId = u.1 ∧ (s.body u).id = u.2) {b : TimerBody nc nt}
    (hb : b.timerType = .off) (hc : b.clientId = t.1) (hi : b.id = t.2) :
    (s.setBody t b).WellFormed := by
  refine ⟨⟨l, h.congr (links_setBody s t b) (fun u hu => ?_) fun u => ?_⟩,
    labels_setBody hlabels hc hi⟩
  · rw [body_setBody, Function.update_of_ne hu.2]
  · rw [armed_setBody_iff]
    refine (or_iff_left ?_).symm
    exact fun hu => hu.2 hb

theorem setLinks_links : s.setLinks s.links = s := rfl

/-- Taking an armed timer off the list of a well-formed server. -/
theorem WellFormed.removeTimer (h : s.WellFormed) (ht : s.Armed t) :
    ∃ L l, s.removeTimer t = .ok (s.setLinks L) ∧
      (s.setLinks L).Holds (fun u => (s.setLinks L).Armed u ∧ u ≠ t) l := by
  obtain ⟨l, hl⟩ := h.list
  obtain ⟨L, hok, hL⟩ := hl.removeTimer ht
  exact ⟨L, l.erase t, hok, hL⟩

/-- How every call that sets a timer begins: off the list with it, if it is on the list. -/
theorem WellFormed.removeIfArmed (h : s.WellFormed) (t : TimerRef nc nt) :
    ∃ L l, s.removeIfArmed t = .ok (s.setLinks L) ∧
      (s.setLinks L).Holds (fun u => (s.setLinks L).Armed u ∧ u ≠ t) l := by
  unfold Server.removeIfArmed
  by_cases ht : (s.body t).timerType ≠ .off
  · rw [if_pos ht]
    exact h.removeTimer ht
  · obtain ⟨l, hl⟩ := h.list
    rw [if_neg ht]
    refine ⟨s.links, l, congrArg _ setLinks_links.symm, hl.congr rfl (fun _ _ => rfl) fun u => ?_⟩
    exact ⟨fun hu => ⟨hu, fun hc => ht (hc ▸ hu)⟩, And.left⟩

/-- `s` with the mutex taken. -/
def locked (s : Server nc nt) : Server nc nt := { s with timeServerHeld := true }

@[simp] theorem body_locked : s.locked.body = s.body := rfl
@[simp] theorem theCurrentTime_locked : s.locked.theCurrentTime = s.theCurrentTime := rfl
@[simp] theorem bank_locked : s.locked.bank = s.bank := rfl
@[simp] theorem bank_timeServerUnlock : s.timeServerUnlock.bank = s.bank := rfl
@[simp] theorem timeServerHeld_timeServerUnlock : s.timeServerUnlock.timeServerHeld = false := rfl

theorem timeServerLock_eq (hfree : s.timeServerHeld = false) :
    s.timeServerLock = .ok s.locked := by
  simp [timeServerLock, hfree, locked]

/-- The mutex and the clock are no part of the invariant. -/
theorem WellFormed.congr {s' : Server nc nt} (h : s.WellFormed) (hlinks : s'.links = s.links)
    (hbody : s'.body = s.body) : s'.WellFormed := by
  obtain ⟨l, hl⟩ := h.list
  refine ⟨⟨l, hl.congr hlinks (fun u _ => by rw [hbody]) fun u => ?_⟩, fun u => ?_⟩
  · unfold Armed
    rw [hbody]
  · rw [hbody]
    exact h.labels u

/-! ### One iteration of the interrupt's loop -/

/-- The head of a well-formed list is armed and due when the loop test passes. -/
theorem WellFormed.due_of_dueHead (h : s.WellFormed) {now : BitVec 64}
    (hd : s.dueHead now = some t) : s.Armed t ∧ (s.bank.entry t).Due now := by
  obtain ⟨l, hl⟩ := h.list
  obtain ⟨hhead, hle⟩ := dueHead_eq_some hd
  have ht : s.Armed t := (hl.mem_iff t).1 (hl.represents.mem_of_head hhead)
  exact ⟨ht, (Entry.due_ofBody ht).2 hle⟩

/-- When the loop test fails no entry is due. -/
theorem WellFormed.idle_of_dueHead (h : s.WellFormed) {now : BitVec 64}
    (hd : s.dueHead now = none) (t : TimerRef nc nt) : ¬ (s.bank.entry t).Due now := by
  obtain ⟨l, hl⟩ := h.list
  intro hdue
  by_cases ht : s.Armed t
  · have hlt := hl.not_due_of_dueHead_none hd ht
    have hle := (Entry.due_ofBody ht).1 hdue
    exact absurd hle (BitVec.not_le.2 hlt)
  · have hoff : s.bank.entry t = .off := by
      rw [armed_iff] at ht
      exact not_not.1 ht
    rw [hoff] at hdue
    exact hdue

/-- The rule for `signal_client`: its asserts hold, it serves the timer's entry, and it signals
the timer's own client. -/
theorem WellFormed.signalClient (h : s.WellFormed) (ht : s.Armed t) (now : BitVec 64) :
    ∃ s', s.signalClient t now = .ok (signalOf now (t, s.bank.entry t), s') ∧ s'.WellFormed ∧
      s'.bank.entry = Function.update s.bank.entry t (s.bank.entry t).fire ∧
      s'.bank.completed =
        Function.update s.bank.completed t.1 (s.bank.completed t.1 ||| bit t.2) ∧
      s'.bank.now = s.bank.now ∧ s'.timeServerHeld = s.timeServerHeld := by
  obtain ⟨hc, hi⟩ := h.labels t
  have hm : (s.markCompleted (s.body t).clientId (s.body t).id).WellFormed := h.congr rfl rfl
  obtain ⟨L, l, hrem, hL⟩ := hm.removeTimer (t := t) ht
  have hsig : (⟨(s.body t).clientId, (s.body t).id, (s.body t).timeoutTime, now⟩ : Signal nc nt) =
      signalOf now (t, s.bank.entry t) := by
    unfold signalOf
    rw [hc, hi]
    exact congrArg (fun d => (⟨t.1, t.2, d, now⟩ : Signal nc nt)) (Entry.deadline_ofBody ht).symm
  have hmark : (s.markCompleted (s.body t).clientId (s.body t).id).completed =
      Function.update s.bank.completed t.1 (s.bank.completed t.1 ||| bit t.2) := by
    rw [hc, hi]
    rfl
  cases hty : (s.body t).timerType with
  | off => exact absurd hty ht
  | periodic =>
      obtain ⟨s', hins, hwf, hbank, hheld⟩ := setBody_insertTimer (t := t) hL h.labels
        (b := { s.body t with timeoutTime := (s.body t).timeoutTime + (s.body t).periodicNs })
        (by simp [hty]) hc hi
      refine ⟨s', ?_, hwf, ?_, ?_, ?_, hheld⟩
      · simp only [hty] at hins
        simp only [Server.signalClient, hrem, hty, bind, Except.bind, pure, Except.pure, hins, hsig]
      · rw [hbank, bank_setBody]
        exact congrArg (Function.update s.bank.entry t) (by simp [bank, Entry.ofBody, hty,
          Entry.fire])
      · rw [hbank, bank_setBody]
        exact hmark
      · rw [hbank]
        rfl
  | absolute | relative =>
      refine ⟨_, ?_, setBody_off hL h.labels (b := { s.body t with timerType := .off }) rfl hc hi,
        ?_, hmark, rfl, rfl⟩
      · simp only [Server.signalClient, hrem, hty, bind, Except.bind, pure, Except.pure, hsig]
      · rw [bank_setBody]
        exact congrArg (Function.update s.bank.entry t) (by simp [bank, Entry.ofBody, hty,
          Entry.fire])

/-- The first `n` iterations of the loop, on a well-formed server: they run without fault, keep
the server well formed, and serve due entries of the bank.  Fewer than `n` signals mean that the
loop test failed. -/
theorem WellFormed.drain (now : BitVec 64) :
    ∀ (n : ℕ) {s : Server nc nt}, s.WellFormed →
      ∃ log s', Server.drain now n s = .ok (log.map (signalOf now), s') ∧ s'.WellFormed ∧
        s.bank.Drained now log s'.bank ∧ s'.timeServerHeld = s.timeServerHeld ∧
        (log.length < n → s'.dueHead now = none)
  | 0, s, h => ⟨[], s, rfl, h, ⟨.nil _, fun _ => rfl, rfl⟩, rfl, by simp⟩
  | n + 1, s, h => by
      cases hd : s.dueHead now with
      | none =>
          refine ⟨[], s, ?_, h, ⟨.nil _, fun _ => rfl, rfl⟩, rfl, fun _ => hd⟩
          simp [Server.drain, hd]
      | some t =>
          obtain ⟨ht, hdue⟩ := h.due_of_dueHead hd
          obtain ⟨s₁, hsig, hwf₁, hentry, hcompl, hnow, hheld₁⟩ := h.signalClient ht now
          obtain ⟨log, s₂, hrest, hwf₂, hdr, hheld₂, hstop⟩ := WellFormed.drain now n hwf₁
          refine ⟨(t, s.bank.entry t) :: log, s₂, ?_, hwf₂, ⟨?_, fun c => ?_, ?_⟩,
            hheld₂.trans hheld₁, fun hlt => hstop (by simpa using hlt)⟩
          · simp [Server.drain, hd, hsig, hrest, bind, Except.bind, pure, Except.pure]
          · exact .cons hdue (hentry ▸ hdr.fires)
          · rw [hdr.completed, hcompl, List.map_cons, addCompleted_cons]
            by_cases hc : t.1 = c
            · subst hc
              simp [signalOf]
            · simp [signalOf, hc, Function.update_of_ne (Ne.symm hc)]
          · rw [hdr.now_eq, hnow]

/-! ### The refinement -/

/-- A call that arms a timer succeeds on a well-formed server and overwrites its entry. -/
theorem WellFormed.arm (h : s.WellFormed) (hfree : s.timeServerHeld = false) (cid : Fin nc)
    (tid : ℤ) (set : BitVec 64 → TimerBody nc nt → TimerBody nc nt) (e : Entry) (he : e ≠ .off)
    (hset : ∀ b, Entry.ofBody (set s.theCurrentTime b) = e)
    (hlabels : ∀ now b, (set now b).clientId = b.clientId ∧ (set now b).id = b.id) :
    ∃ r s', s.arm cid tid set = .ok (r, s') ∧ s'.WellFormed ∧ s'.timeServerHeld = false ∧
      (.ret r, s'.bank) = s.bank.write cid tid e := by
  unfold Server.arm Bank.write
  cases hj : timerIndex nt tid with
  | none => exact ⟨-1, s, rfl, h, hfree, rfl⟩
  | some j =>
      have hwf : s.locked.WellFormed := h.congr rfl rfl
      obtain ⟨L, l, hrem, hL⟩ := hwf.removeIfArmed (cid, j)
      obtain ⟨hc, hi⟩ := hlabels s.theCurrentTime (s.body (cid, j))
      have hon : (set s.theCurrentTime (s.body (cid, j))).timerType ≠ .off := by
        rw [ne_eq, ← Entry.ofBody_eq_off_iff, hset]
        exact he
      obtain ⟨s', hins, hwf', hbank, -⟩ := setBody_insertTimer hL h.labels hon
        (hc.trans (h.labels (cid, j)).1) (hi.trans (h.labels (cid, j)).2)
      refine ⟨0, s'.timeServerUnlock, ?_, hwf'.congr rfl rfl, rfl, ?_⟩
      · simp only [timeServerLock_eq hfree, bind, Except.bind, pure, Except.pure, hrem]
        simp only [body_setLinks, body_locked, theCurrentTime_setLinks, theCurrentTime_locked, hins]
      · rw [bank_timeServerUnlock, hbank, bank_setBody, hset]
        rfl

/-- `_stop` succeeds on a well-formed server and switches the entry off. -/
theorem WellFormed.stop (h : s.WellFormed) (hfree : s.timeServerHeld = false) (cid : Fin nc)
    (tid : ℤ) :
    ∃ r s', s.stop cid tid = .ok (r, s') ∧ s'.WellFormed ∧ s'.timeServerHeld = false ∧
      (.ret r, s'.bank) = s.bank.write cid tid .off := by
  unfold Server.stop Bank.write
  cases hj : timerIndex nt tid with
  | none => exact ⟨-1, s, rfl, h, hfree, rfl⟩
  | some j =>
      have hwf : s.locked.WellFormed := h.congr rfl rfl
      simp only [timeServerLock_eq hfree, bind, Except.bind, pure, Except.pure]
      by_cases ht : s.Armed (cid, j)
      · obtain ⟨L, l, hrem, hL⟩ := hwf.removeTimer (t := (cid, j)) ht
        have ht' : (s.locked.body (cid, j)).timerType ≠ .off := ht
        rw [if_pos ht', hrem]
        refine ⟨0, _, rfl, ?_, rfl, ?_⟩
        · exact (setBody_off hL h.labels (b := { s.body (cid, j) with timerType := .off }) rfl
            (h.labels (cid, j)).1 (h.labels (cid, j)).2).congr rfl rfl
        · rw [bank_timeServerUnlock, bank_setBody]
          rfl
      · have ht' : ¬ (s.locked.body (cid, j)).timerType ≠ .off := ht
        rw [if_neg ht']
        refine ⟨0, _, rfl, h.congr rfl rfl, rfl, ?_⟩
        have hoff : s.bank.entry (cid, j) = .off := not_not.1 (mt armed_iff.2 ht)
        rw [← hoff, Function.update_eq_self]
        rfl

/-- Every client call succeeds on a well-formed server and does to the bank what it should. -/
theorem serve_refines (h : s.WellFormed) (hfree : s.timeServerHeld = false) (cid : Fin nc)
    (op : Call) :
    ∃ o s', s.serve cid op = .ok (o, s') ∧ s'.WellFormed ∧ s'.timeServerHeld = false ∧
      (o, s'.bank) = s.bank.serve cid op := by
  -- the calls that set a timer all pass their result on as the returned number
  have wrap : ∀ {r : Except Fault (ℤ × Server nc nt)} {v : Output nc nt × Bank nc nt},
      (∃ i s', r = .ok (i, s') ∧ s'.WellFormed ∧ s'.timeServerHeld = false ∧
        (Output.ret i, s'.bank) = v) →
      ∃ o s', (do let out ← r; pure (Output.ret out.1, out.2) : Except Fault _) = .ok (o, s') ∧
        s'.WellFormed ∧ s'.timeServerHeld = false ∧ (o, s'.bank) = v := by
    rintro r v ⟨i, s', rfl, hrest⟩
    exact ⟨.ret i, s', rfl, hrest⟩
  cases op with
  | oneshotRelative tid ns =>
      exact wrap (h.arm hfree cid tid _ (.oneShot (s.theCurrentTime + ns)) (by rintro ⟨⟩)
        (fun _ => rfl) fun _ _ => ⟨rfl, rfl⟩)
  | oneshotAbsolute tid ns =>
      exact wrap (h.arm hfree cid tid _ (.oneShot ns) (by rintro ⟨⟩) (fun _ => rfl) fun _ _ => ⟨rfl, rfl⟩)
  | periodic tid ns =>
      exact wrap (h.arm hfree cid tid _ (.periodic (s.theCurrentTime + ns) ns) (by rintro ⟨⟩)
        (fun _ => rfl) fun _ _ => ⟨rfl, rfl⟩)
  | stop tid => exact wrap (h.stop hfree cid tid)
  | completed =>
      let s' : Server nc nt := { s.locked with completed := Function.update s.completed cid 0 }
      refine ⟨.mask (s.completed cid), s'.timeServerUnlock, ?_, h.congr rfl rfl, rfl, rfl⟩
      simp only [serve, takeCompleted, timeServerLock_eq hfree, bind, Except.bind, pure, Except.pure]
      rfl
  | time => exact ⟨_, s, rfl, h, hfree, rfl⟩
  | tscFrequency => exact ⟨_, s, rfl, h, hfree, rfl⟩

end Server

end TimeServer
end Tk1Bsp
