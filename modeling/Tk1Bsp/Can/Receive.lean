import Tk1Bsp.Can.Lengths

/-!
# Received frames and the semaphore

`can_recv` waits for the semaphore `queue_lock` and then takes a frame from the RX queue without
looking whether there is one.  So the count of the semaphore has to be the number of frames in the
queue.  `receive_message` posts the semaphore also when the queue is full and the frame is dropped;
where that does not happen (`System.Roomy`), the two agree, and the frames are delivered in the
order in which they were received.
-/

namespace Tk1Bsp
namespace Can

open Prog

/-! ## Protocols of the two threads -/

/-- The operation concerns the RX queue or its semaphore. -/
def Op.ConcernsRx : Op → Prop
  | .mqIsFull .rx | .mqIsEmpty .rx | .mqAppend .rx _ | .mqRemove .rx => True
  | .queueLockWait | .queueLockPost => True
  | _ => False

/-- Where the handler is with a received frame. -/
inductive Arrival
  | none
  | pushing
  | owed
  | lost

/-- The protocol of the handler. -/
inductive Receives : Arrival → (o : Op) → Ans o → Arrival → Prop
  | other {g : Arrival} {o : Op} {r : Ans o} (h : ¬ o.ConcernsRx) : Receives g o r g
  | room : Receives .none (.mqIsFull .rx) false .pushing
  | full : Receives .none (.mqIsFull .rx) true .lost
  | append (frame : CanFrame) : Receives .pushing (.mqAppend .rx frame) () .owed
  | post : Receives .owed .queueLockPost () .none
  | lost {o : Op} {r : Ans o} : Receives .lost o r .lost

/-- Where the client is with a frame: past the semaphore, past the test of the queue, or with the
frame or without one before the return. -/
inductive Taking
  | none
  | token
  | ready
  | got (frame : CanFrame)
  | starved

/-- The protocol of the client. -/
inductive Takes : Taking → (o : Op) → Ans o → Taking → Prop
  | other {g : Taking} {o : Op} {r : Ans o} (h : ¬ o.ConcernsRx) : Takes g o r g
  | wait : Takes .none .queueLockWait () .token
  | nonempty : Takes .token (.mqIsEmpty .rx) false .ready
  | empty : Takes .token (.mqIsEmpty .rx) true .starved
  | remove (frame : CanFrame) : Takes .ready (.mqRemove .rx) frame (.got frame)

/-- What a call has when it ends. -/
def Taking.Ends : Reply → Taking → Prop
  | .frame (some frame), g => g = .got frame
  | .frame Option.none, g => g = .starved
  | _, g => g = .none

/-- A frame is in the queue for which the semaphore has not been posted. -/
def Arrival.owes : Arrival → ℕ
  | owed => 1
  | _ => 0

/-- The client has waited for the semaphore and not taken its frame. -/
def Taking.tokens : Taking → ℕ
  | token | ready => 1
  | _ => 0

/-- The frame the client has taken and not returned. -/
def Taking.held : Taking → List (Option CanFrame)
  | got frame => [some frame]
  | _ => []

/-! ## The invariant -/

/-- The books of the RX queue. -/
structure Balanced (gc : Taking) (gh : Arrival) (d : Driver) (h : History) : Prop where
  apart : d.Apart
  counted : (d.queued .rx).length = d.queueLock + gc.tokens + gh.owes
  delivered : ∃ taken, h.received = taken ++ d.queued .rx ∧
    h.delivered ++ gc.held = taken.map some
  room : gh = .pushing → mqIsFull d.rxq = false
  notLost : gh ≠ .lost
  notStarved : gc ≠ .starved

theorem queued_rx_of_other {o : Op} (ho : ¬ o.ConcernsRx) {d d' : Driver} {r : Ans o}
    (hapart : d.Apart) (hexec : exec o d = some (r, d')) :
    d'.queued .rx = d.queued .rx ∧ d'.rxq = d.rxq ∧ d'.queueLock = d.queueLock := by
  cases o with
  | mqAppend q frame =>
      cases q with
      | rx => exact absurd trivial ho
      | tx =>
          cases hexec
          exact ⟨@queued_mqAppendMsg_of_ne d hapart .tx .rx (by rintro ⟨⟩) frame, rfl, rfl⟩
  | mqRemove q =>
      cases q with
      | rx => exact absurd trivial ho
      | tx =>
          cases hexec
          exact ⟨rfl, rfl, rfl⟩
  | queueLockWait | queueLockPost => exact absurd trivial ho
  | spinWhileNonzero | txbLock =>
      simp only [exec] at hexec
      split at hexec <;> cases hexec
      exact ⟨rfl, rfl, rfl⟩
  | undefined => cases hexec
  | _ =>
      cases hexec
      exact ⟨rfl, rfl, rfl⟩

theorem received_of_other {o : Op} (ho : ¬ o.ConcernsRx) (h : History) :
    (h.record o).received = h.received ∧ (h.record o).delivered = h.delivered := by
  cases o with
  | spi txbuf n =>
      simp only [History.record]
      split <;> exact ⟨rfl, rfl⟩
  | mqAppend q frame =>
      cases q with
      | rx => exact absurd trivial ho
      | tx => exact ⟨rfl, rfl⟩
  | _ => exact ⟨rfl, rfl⟩

namespace Balanced

variable {gc gc' : Taking} {gh gh' : Arrival} {d d' : Driver} {h : History} {o : Op} {r : Ans o}

/-- What does not concern the RX queue. -/
theorem other (hb : Balanced gc gh d h) (ho : ¬ o.ConcernsRx) (hexec : exec o d = some (r, d')) :
    Balanced gc gh d' (h.record o) := by
  obtain ⟨hqueued, hrxq, hlock⟩ := queued_rx_of_other ho hb.apart hexec
  obtain ⟨hreceived, hdelivered⟩ := received_of_other ho h
  exact
    { apart := hb.apart.exec hexec
      counted := by rw [hqueued, hlock]; exact hb.counted
      delivered := by rw [hqueued, hreceived, hdelivered]; exact hb.delivered
      room := by rw [hrxq]; exact hb.room
      notLost := hb.notLost
      notStarved := hb.notStarved }

/-- What the handler does keeps the books, if a push finds room. -/
theorem receives (hb : Balanced gc gh d h) (hs : Receives gh o r gh')
    (hroom : o = .mqIsFull .rx → mqIsFull d.rxq = false) (hexec : exec o d = some (r, d')) :
    Balanced gc gh' d' (h.record o) := by
  cases hs with
  | other ho => exact hb.other ho hexec
  | room =>
      obtain ⟨hfull, rfl⟩ := Prod.mk.inj (Option.some.inj hexec)
      exact ⟨hb.apart, hb.counted, hb.delivered, fun _ => hfull, (by rintro ⟨⟩), hb.notStarved⟩
  | full =>
      obtain ⟨hfull, -⟩ := Prod.mk.inj (Option.some.inj hexec)
      have hnot : mqIsFull (d.queue .rx) = false := hroom rfl
      rw [hnot] at hfull
      cases hfull
  | append frame =>
      have hapart := hb.apart.exec hexec
      have hqueued := @queued_mqAppendMsg d .rx frame (hb.room rfl)
      have hcounted := hb.counted
      obtain ⟨taken, hreceived, hdelivered⟩ := hb.delivered
      cases hexec
      refine ⟨hapart, ?_, ⟨taken, ?_, hdelivered⟩, (by rintro ⟨⟩), (by rintro ⟨⟩), hb.notStarved⟩
      · rw [hqueued, List.length_append, hcounted]
        rfl
      · show h.received ++ [frame] = taken ++ (mqAppendMsg d .rx frame).queued .rx
        rw [hqueued, hreceived, List.append_assoc]
  | post =>
      have hcounted := hb.counted
      cases hexec
      refine ⟨hb.apart, ?_, hb.delivered, (by rintro ⟨⟩), (by rintro ⟨⟩), hb.notStarved⟩
      show (d.queued .rx).length = d.queueLock + 1 + gc.tokens + 0
      rw [hcounted]
      simp only [Arrival.owes]
      omega
  | lost => exact absurd rfl hb.notLost

/-- What the client does keeps the books. -/
theorem takes (hb : Balanced gc gh d h) (hs : Takes gc o r gc') (hexec : exec o d = some (r, d')) :
    Balanced gc' gh d' (h.record o) := by
  cases hs with
  | other ho => exact hb.other ho hexec
  | wait =>
      have hcounted := hb.counted
      simp only [exec] at hexec
      split at hexec <;> cases hexec
      refine ⟨hb.apart, ?_, hb.delivered, hb.room, hb.notLost, (by rintro ⟨⟩)⟩
      show (d.queued .rx).length = d.queueLock - 1 + 1 + gh.owes
      simp only [Taking.tokens] at hcounted
      omega
  | nonempty =>
      obtain ⟨-, rfl⟩ := Prod.mk.inj (Option.some.inj hexec)
      exact ⟨hb.apart, hb.counted, hb.delivered, hb.room, hb.notLost, (by rintro ⟨⟩)⟩
  | empty =>
      obtain ⟨hempty, -⟩ := Prod.mk.inj (Option.some.inj hexec)
      have hnil := mqIsEmpty_iff.1 hempty
      have hcounted := hb.counted
      rw [hnil] at hcounted
      simp only [List.length_nil, Taking.tokens] at hcounted
      omega
  | remove frame =>
      have hapart := hb.apart.exec hexec
      have hcounted := hb.counted
      have hempty : mqIsEmpty (d.queue .rx) = false := by
        rw [← Bool.not_eq_true, mqIsEmpty_iff]
        intro hnil
        rw [hnil] at hcounted
        simp only [List.length_nil, Taking.tokens] at hcounted
        omega
      have hqueued := queued_mqRemoveMsg hempty
      obtain ⟨taken, hreceived, hdelivered⟩ := hb.delivered
      cases hexec
      refine ⟨hapart, ?_, ⟨taken ++ [(mqRemoveMsg d .rx).1], ?_, ?_⟩,
        fun _ => mqIsFull_pop hempty, hb.notLost, (by rintro ⟨⟩)⟩
      · rw [hqueued] at hcounted
        simp only [List.length_cons, Taking.tokens] at hcounted ⊢
        show ((mqRemoveMsg d .rx).2.queued .rx).length = d.queueLock + 0 + gh.owes
        omega
      · rw [List.append_assoc]
        show h.received = taken ++ ((mqRemoveMsg d .rx).1 :: (mqRemoveMsg d .rx).2.queued .rx)
        rw [← hqueued, hreceived]
      · rw [List.map_append, ← hdelivered]
        show h.delivered ++ [some (mqRemoveMsg d .rx).1] =
          h.delivered ++ [] ++ [some (mqRemoveMsg d .rx).1]
        rw [List.append_nil]

end Balanced

/-! ## The programs obey the protocols -/

theorem other_of_plain {o : Op} (h : o.Plain) : ¬ o.ConcernsRx := by
  cases h <;> exact id

theorem other_loadTxb (i : Fin 3) (frame : CanFrame) :
    (loadTxb i frame).Every fun o => ¬ o.ConcernsRx :=
  every_loadTxb i frame (fun _ => other_of_plain) fun _ _ => id

theorem other_serveTxb (i : Fin 3) (rts : BitVec 8) :
    (serveTxb i rts).Every fun o => ¬ o.ConcernsRx := by
  refine ((plain_canidClearCache i).mono fun _ => other_of_plain).bind fun _ => ⟨id, fun _ => ?_⟩
  refine (every_queuePop id id).bind fun popped => ?_
  cases popped with
  | some frame => exact ⟨id, fun _ => (other_loadTxb i frame).bind fun _ => trivial⟩
  | none => exact ⟨id, fun _ => ⟨id, fun _ => ⟨id, fun _ => trivial⟩⟩⟩

theorem other_transmitLoop (tx : BitVec 8) (is : List (Fin 3)) (rts : BitVec 8) :
    (transmitLoop tx is rts).Every fun o => ¬ o.ConcernsRx := by
  induction is generalizing rts with
  | nil => trivial
  | cons i is ih =>
      unfold transmitLoop
      split
      · exact (other_serveTxb i rts).bind ih
      · exact ih rts

theorem other_transmitMessage (tx : BitVec 8) :
    (transmitMessage tx).Every fun o => ¬ o.ConcernsRx :=
  ⟨id, fun _ => (other_transmitLoop tx [2, 1, 0] 0).bind fun _ => ⟨id, fun _ => trivial⟩⟩

theorem receives_other {α : Type} {p : Io α} (h : p.Every fun o => ¬ o.ConcernsRx) (g : Arrival) :
    p.Follows Receives g fun _ g' => g' = g :=
  h.follows fun _ _ ho => .other ho

theorem receives_lost {α : Type} (p : Io α) : p.Follows Receives .lost fun _ g => g = .lost := by
  induction p with
  | ret a => rfl
  | call o k ih => exact fun r => ⟨.lost, .lost, ih r⟩

/-- A program that returns all received frames to the books, or loses one. -/
def Settles {α : Type} (p : Io α) : Prop :=
  p.Follows Receives .none fun _ g => g = .none ∨ g = .lost

theorem Settles.bind {α β : Type} {p : Io α} {f : α → Io β} (h : Settles p)
    (hf : ∀ a, Settles (f a)) : Settles (p.bind f) := by
  refine Follows.bind (h.mono fun a g hg => ?_)
  rcases hg with rfl | rfl
  · exact hf a
  · exact (receives_lost (f a)).mono fun _ _ => .inr

theorem settles_other {α : Type} {p : Io α} (h : p.Every fun o => ¬ o.ConcernsRx) : Settles p :=
  (receives_other h .none).mono fun _ _ => .inl

theorem settles_receiveIf (rx : BitVec 8) (i : ℕ) (frame : CanFrame) :
    Settles (receiveIf rx i frame) := by
  unfold receiveIf
  split
  · refine (settles_other ((plain_recvRxb i frame).mono fun _ => other_of_plain)).bind fun frame => ?_
    rintro (_ | _)
    · exact ⟨_, .room, fun _ => ⟨_, .append frame, fun _ => ⟨_, .post, .inl rfl⟩⟩⟩
    · exact ⟨_, .full, fun _ => ⟨_, .lost, .inr rfl⟩⟩
  · exact .inl rfl

theorem settles_irqHandler (frame : CanFrame) : Settles (irqHandler frame) := by
  have hplain : ∀ {flags mask : BitVec 8} {p : Io Unit}, p.Every Op.Plain →
      Settles (onFlag flags mask p) := fun h =>
    settles_other (every_onFlag (h.mono fun _ => other_of_plain))
  refine (settles_other (every_readReg id)).bind fun flags => ?_
  refine (hplain plain_reportMessageError).bind fun _ => ?_
  refine (hplain (plain_clearFlags canintfWakif (by decide))).bind fun _ => ?_
  refine (hplain plain_reportError).bind fun _ => ?_
  refine (settles_other (every_onFlag (other_transmitMessage _))).bind fun _ => ?_
  refine Settles.bind ?_ fun _ => settles_other ⟨id, fun _ => trivial⟩
  refine follows_onFlag ?_ (.inl rfl)
  exact (settles_receiveIf _ 0 frame).bind fun frame =>
    (settles_receiveIf _ 1 frame).bind fun _ => .inl rfl

theorem takes_other {α : Type} {p : Io α} (h : p.Every fun o => ¬ o.ConcernsRx) (g : Taking) :
    p.Follows Takes g fun _ g' => g' = g :=
  h.follows fun _ _ ho => .other ho

theorem other_raiseLoop (is : List (Fin 3)) : (raiseLoop is).Every fun o => ¬ o.ConcernsRx := by
  induction is with
  | nil => trivial
  | cons i is ih =>
      refine (every_readReg id).bind fun ctrl => ?_
      split
      · exact ⟨id, fun _ => ⟨id, fun _ => ih⟩⟩
      · exact ih

theorem other_canSend (frame : CanFrame) : (canSend frame).Every fun o => ¬ o.ConcernsRx := by
  refine (every_queuePush id (fun _ => id) frame).bind fun ret => Every.bind ⟨id, fun stopped => ?_⟩
    fun _ => trivial
  cases stopped with
  | false => trivial
  | true => exact ⟨id, fun _ => (other_raiseLoop [0, 1, 2]).bind fun _ => ⟨id, fun _ => trivial⟩⟩

theorem other_canSendto (txbIdx : ℤ) (frame : CanFrame) :
    (canSendto txbIdx frame).Every fun o => ¬ o.ConcernsRx := by
  refine ((plain_txbStatus txbIdx).mono fun _ => other_of_plain).bind fun status => ?_
  split
  · by_cases h : ∃ i : Fin 3, txbIdx = i
    · obtain ⟨i, rfl⟩ := h
      rw [getFramePriority_fin]
      refine ((plain_getFramePriorityAt i _).mono fun _ => other_of_plain).bind fun prio => ?_
      exact (other_loadTxb i _).bind fun _ => ⟨id, fun _ => trivial⟩
    · obtain ⟨k, hk⟩ := getFramePriority_other (fun i hi => h ⟨i, hi⟩) frame.ident
      rw [hk]
      exact ⟨id, fun absurd => nomatch absurd⟩
  · trivial

theorem takes_body (c : Call) : c.body.Follows Takes .none Taking.Ends := by
  cases c with
  | send frame =>
      refine (takes_other (other_canSend frame) _).seq fun ret => ?_
      show Taking.Ends (if ret < 0 then .again else .done) .none
      split <;> rfl
  | sendto txbIdx frame => exact (takes_other (other_canSendto txbIdx frame) _).seq fun _ => rfl
  | recv =>
      refine fun _ => ⟨_, .wait, ?_⟩
      rintro (_ | _)
      · exact ⟨_, .nonempty, fun frame => ⟨_, .remove frame, rfl⟩⟩
      · exact ⟨_, .empty, rfl⟩

/-! ## Runs -/

theorem Balanced.event {gc : Taking} {gh : Arrival} {d : Driver} {h : History}
    (hb : Balanced gc gh d h) (e : ChipEvent) (chip : Chip) :
    Balanced gc gh { d with chip := chip } (h.event e) := by
  have hevent : (h.event e).received = h.received ∧ (h.event e).delivered = h.delivered := by
    cases e <;> exact ⟨rfl, rfl⟩
  exact ⟨hb.apart, hb.counted, by rw [hevent.1, hevent.2]; exact hb.delivered, hb.room, hb.notLost,
    hb.notStarved⟩

namespace System

/-- The condition on a step: when `receive_message` tests the RX queue, it is not full. -/
def Roomy (s : System) (a : Act) : Prop :=
  a = .handler → ∀ k, s.handler = .call (.mqIsFull .rx) k → mqIsFull s.driver.rxq = false

/-- A step in which no frame is dropped, and the lengths fit. -/
def RoomyStep (s : System) (a : Act) (u : Unit) (s' : System) : Prop :=
  s.Step a u s' ∧ s.Roomy a ∧ s.short a = true

/-- Right after `can__init`, with the semaphore at 1 before. -/
structure Initialized (s : System) : Prop where
  atRest : s.AtRest
  canInit : ∃ d : Driver, d.queueLock = 1 ∧ canInit d = some s.driver
  received : s.history.received = []
  delivered : s.history.delivered = []

/-- Both threads obey their protocols, and the books are balanced. -/
def Accounted (s : System) : Prop :=
  ∃ gc gh, (s.client = none → gc = .none) ∧
    (∀ c p, s.client = some (c, p) → p.Follows Takes gc Taking.Ends) ∧
    s.handler.Follows Receives gh (fun _ g => g = .none ∨ g = .lost) ∧
    Balanced gc gh s.driver s.history

theorem Initialized.accounted {s : System} (h : s.Initialized) : s.Accounted := by
  obtain ⟨d, hlock, hinit⟩ := h.canInit
  obtain ⟨rs, hexec, hdriver⟩ := Option.map_eq_some_iff.1 hinit
  simp only [exec, hlock, Nat.one_ne_zero, if_false, Option.some.injEq] at hexec
  subst hexec
  have hqueued : s.driver.queued .rx = [] := by
    rw [← hdriver]
    exact Ring.contents_empty ..
  refine ⟨.none, .none, fun _ => rfl, ?_, ?_, ?_⟩
  · rw [h.atRest.1]
    rintro c p ⟨⟩
  · rw [h.atRest.2]
    exact .inl rfl
  · refine ⟨?_, ?_, ⟨[], ?_, ?_⟩, (by rintro ⟨⟩), (by rintro ⟨⟩), (by rintro ⟨⟩)⟩
    · rw [← hdriver]
      exact apart_mqInit _ _
    · rw [hqueued, ← hdriver]
      rfl
    · rw [hqueued, h.received]
      rfl
    · rw [h.delivered]
      rfl

theorem Accounted.step {s s' : System} {a : Act} (h : s.Accounted) (hroomy : s.Roomy a)
    (hstep : s.step a = some s') : s'.Accounted := by
  obtain ⟨gc, gh, hidle, hclient, hhandler, hb⟩ := h
  cases moves_of_step hstep with
  | call c hnone =>
      obtain rfl := hidle hnone
      refine ⟨.none, gh, nofun, fun c' p hc => ?_, hhandler, hb⟩
      cases hc
      exact takes_body c
  | @reply c r hprog =>
      have hends : Taking.Ends r gc := hclient c _ hprog
      cases r with
      | again =>
          obtain rfl : gc = .none := hends
          refine ⟨.none, gh, nofun, fun c' p hc => ?_, hhandler, hb⟩
          cases hc
          exact takes_body c
      | done | status _ =>
          obtain rfl : gc = .none := hends
          exact ⟨.none, gh, fun _ => rfl, nofun, hhandler, hb⟩
      | frame f =>
          cases f with
          | none => exact absurd hends hb.notStarved
          | some f =>
              obtain rfl : gc = .got f := hends
              obtain ⟨taken, hreceived, hdelivered⟩ := hb.delivered
              refine ⟨.none, gh, fun _ => rfl, nofun, hhandler, hb.apart, hb.counted,
                ⟨taken, hreceived, ?_⟩, hb.room, hb.notLost, nofun⟩
              rw [← hdelivered]
              exact List.append_nil _
  | @client c o k r d hprog hexec =>
      obtain ⟨gc', hnext, hk⟩ := hclient c _ hprog r
      refine ⟨gc', gh, nofun, fun c' p hc => ?_, hhandler, hb.takes hnext hexec⟩
      cases hc
      exact hk
  | irq frame hrest =>
      rw [hrest] at hhandler
      have hnone : gh = .none := hhandler.resolve_right hb.notLost
      exact ⟨gc, .none, hidle, hclient, settles_irqHandler frame, hnone ▸ hb⟩
  | @handler o k r d hprog hexec =>
      rw [hprog] at hhandler
      obtain ⟨gh', hnext, hk⟩ := hhandler r
      refine ⟨gc, gh', hidle, hclient, hk, hb.receives hnext (fun ho => ?_) hexec⟩
      subst ho
      exact hroomy rfl k hprog
  | chip hevent => exact ⟨gc, gh, hidle, hclient, hhandler, hb.event _ _⟩

/-- What the calls of `can_recv` rely on: at rest the semaphore counts the frames in the RX queue, a
`can_recv` that has passed the semaphore finds a frame, and the `n`-th one returns the `n`-th frame
that was received. -/
structure Delivers (s : System) : Prop where
  counted : s.AtRest → s.driver.queueLock = (s.driver.queued .rx).length
  found : ∀ c k, s.client = some (c, .call (.mqIsEmpty .rx) k) → s.driver.queued .rx ≠ []
  inOrder : s.history.delivered = (s.history.received.take s.history.delivered.length).map some

theorem Accounted.delivers {s : System} (h : s.Accounted) : s.Delivers := by
  obtain ⟨gc, gh, hidle, hclient, hhandler, hb⟩ := h
  have hcounted := hb.counted
  refine ⟨fun hrest => ?_, fun c k hprog hnil => ?_, ?_⟩
  · obtain rfl := hidle hrest.1
    rw [hrest.2] at hhandler
    obtain rfl : gh = .none := hhandler.resolve_right hb.notLost
    exact hcounted.symm
  · obtain ⟨gc', hnext, -⟩ := hclient c _ hprog true
    have htoken : gc.tokens = 1 := by
      cases hnext with
      | other ho => exact absurd trivial ho
      | empty => rfl
    rw [hnil, htoken] at hcounted
    simp only [List.length_nil] at hcounted
    omega
  · obtain ⟨taken, hreceived, hdelivered⟩ := hb.delivered
    have hlen : s.history.delivered.length ≤ taken.length := by
      have := congrArg List.length hdelivered
      rw [List.length_append, List.length_map] at this
      omega
    rw [hreceived, List.take_append_of_le_length hlen, List.map_take, ← hdelivered,
      List.take_left]

/-- In a run in which no frame is dropped, every `can_recv` delivers, and no thread comes to an access
outside of an array. -/
theorem delivered_in_order {s : System} (h : Transition.Reachable RoomyStep Initialized s) :
    s.Delivers ∧ ¬ s.Astray := by
  obtain ⟨haccounted, hdefined⟩ := h.invariant (I := fun s => s.Accounted ∧ s.Defined)
    (fun _ hs => ⟨hs.accounted, defined_of_atRest hs.atRest⟩) fun _ _ _ _ hI hstep =>
      ⟨hI.1.step hstep.2.1 hstep.1, hI.2.step hstep.2.2 hstep.1⟩
  exact ⟨haccounted.delivers, hdefined.not_astray⟩

/-- There is room in the RX queue, and the lengths fit, which makes a step one in which no frame is
dropped. -/
def hasRoom (s : System) (a : Act) : Bool := !mqIsFull s.driver.rxq && s.short a

theorem roomyStep_of_hasRoom (s : System) (a : Act) (s' : System) (ha : hasRoom s a = true)
    (hstep : s.step a = some s') : s.RoomyStep a () s' := by
  obtain ⟨hroom, hshort⟩ := Bool.and_eq_true_iff.1 ha
  exact ⟨hstep, fun _ _ _ => by simpa using hroom, hshort⟩

theorem initialized_booted (chip : Chip) (frames : ℕ → CanFrame) :
    (booted chip frames).Initialized where
  atRest := ⟨rfl, rfl⟩
  canInit := ⟨{ (booted chip frames).driver with queueLock := 1 }, rfl, rfl⟩
  received := rfl
  delivered := rfl

/-- A message without payload in a receive buffer. -/
def blank : Vector (BitVec 8) 13 := Vector.replicate 13 0

/-- A frame is received, and `can_recv` takes it. -/
theorem run_receive_recv :
    ((booted ⟨fun _ => 0⟩ fun _ => .bare 0).run hasRoom
      (.chip (.receive 0 blank) :: .irq (.bare 0) :: List.replicate 6 .handler ++
        .call .recv :: List.replicate 4 .client)).map
      (fun s => (s.client, s.handler, s.history.delivered.length)) =
        some (none, .ret (), 1) := rfl

/-- The first `can_recv` returns the first frame, and the books are balanced. -/
theorem delivered_in_order_first :
    ∃ s : System, s.AtRest ∧ s.driver.queueLock = (s.driver.queued .rx).length ∧
      s.history.delivered = (s.history.received.take 1).map some := by
  obtain ⟨s, hrun, hs⟩ := Option.map_eq_some_iff.1 run_receive_recv
  obtain ⟨hclient, hs⟩ := Prod.mk.inj hs
  obtain ⟨hhandler, hlength⟩ := Prod.mk.inj hs
  have hreach := reachable_of_run roomyStep_of_hasRoom hrun (.of_init (initialized_booted _ _))
  have hbooks := (delivered_in_order hreach).1
  exact ⟨s, ⟨hclient, hhandler⟩, hbooks.counted ⟨hclient, hhandler⟩, hlength ▸ hbooks.inOrder⟩

/-! ## The semaphore runs ahead -/

/-- What the controller has received is what the driver reads. -/
theorem readFrom_fill (c : Chip) (buf : Vector (BitVec 8) 13) (v : BitVec 8) :
    ((c.fill 0 buf).set (toAddr canintf) v).readFrom 0x61 13 = buf.toList := by
  apply List.ext_getElem
  · simp [Chip.readFrom]
  · intro k hk _
    have hlt : k < 13 := by simpa [Chip.readFrom] using hk
    have hval : ((0x61 : Addr) + Fin.ofNat 128 k).val = 0x61 + k := by
      rw [Fin.val_add]
      show (0x61 + k % 128) % 128 = 0x61 + k
      omega
    have hne : (0x61 : Addr) + Fin.ofNat 128 k ≠ toAddr canintf := by
      intro hc
      rw [hc] at hval
      exact absurd hval (by show ¬ (0x2C = 0x61 + k); omega)
    have hfilter : ¬ Chip.isFilter ((0x61 : Addr) + Fin.ofNat 128 k) := by
      unfold Chip.isFilter
      omega
    simp only [Chip.readFrom, List.getElem_map, List.getElem_range, Vector.getElem_toList]
    rw [Chip.read, if_neg (by omega), if_neg (by omega), if_neg (fun hc => hfilter hc.1),
      Chip.reg_set_of_ne hne, Chip.reg_fill 0 buf hlt hval]

/-- The handler with nothing but one blank message: it posts the semaphore, and adds a frame to the
queue if there is room. -/
theorem run_irqHandler_blank {d : Driver} (frame : CanFrame)
    (hflags : d.chip.read (toAddr canintf) = 1) (hbuf : d.chip.readFrom 0x61 13 = blank.toList) :
    ∃ d', (irqHandler frame).run exec d = some ((), d') ∧ d'.chip.reg (toAddr canintf) = 0 ∧
      d'.queueLock = d.queueLock + 1 ∧
      d'.rxq = if mqIsFull d.rxq then d.rxq else d.rxq.push := by
  have hread : exec (.spi [0x03, canintf] 1) d = some ([1], d) := by
    show some ([d.chip.read (toAddr canintf)], d) = some ([1], d)
    rw [hflags]
  have hclear : d.chip.reg (toAddr canintf) &&& 0xFE = 0 := by
    have hreg : d.chip.reg (toAddr canintf) = 1 := hflags
    rw [hreg]
    rfl
  let d₁ : Driver := { d with chip := d.chip.write (toAddr canintf) 0 }
  have hreadRxb : exec (.spi [0x90 ||| 0] 13) d = some (blank.toList, d₁) := by
    have hspi := Chip.spi_readRxb d.chip 13
    rw [hbuf, hclear] at hspi
    simp only [exec, hspi]
    rfl
  have hrecv : (recvRxb 0 frame).run exec d = some (decodeFrame blank.toList frame, d₁) := by
    refine (run_call_of_exec hreadRxb).trans ?_
    simp only [ret_bind]
    rfl
  have hflags₁ : handleFlags 1 frame = (receiveMessage 1 frame).bind fun _ => op .intAck := rfl
  have hmessage : receiveMessage 1 frame = (receiveRxb 0 frame).bind fun _ => .ret () := rfl
  have hpush : ∃ ret d₂, (rxQueuePush (decodeFrame blank.toList frame)).run exec d₁ = some (ret, d₂) ∧
      d₂.chip = d₁.chip ∧ d₂.queueLock = d.queueLock ∧
      d₂.rxq = if mqIsFull d.rxq then d.rxq else d.rxq.push := by
    have htest : exec (.mqIsFull .rx) d₁ = some (mqIsFull d.rxq, d₁) := rfl
    cases hfull : mqIsFull d.rxq with
    | true => exact ⟨-1, d₁, run_call_of_exec (hfull ▸ htest), rfl, rfl, rfl⟩
    | false =>
        exact ⟨0, mqAppendMsg d₁ .rx _, run_call_of_exec (hfull ▸ htest), rfl, rfl, rfl⟩
  obtain ⟨ret, d₂, hpush, hchip, hlock, hrxq⟩ := hpush
  refine ⟨{ d₂ with queueLock := d₂.queueLock + 1, intAck := d₂.intAck + 1 }, ?_, ?_, ?_, hrxq⟩
  · refine (run_call_of_exec hread).trans ?_
    show (handleFlags 1 frame).run exec d = _
    rw [hflags₁, hmessage, run_bind, run_bind, receiveRxb, bind_eq, run_bind, hrecv]
    simp only [Option.bind_some, bind_eq, run_bind, hpush]
    rfl
  · show d₂.chip.reg (toAddr canintf) = 0
    rw [hchip]
    exact Chip.reg_write_canintf _ _
  · show d₂.queueLock + 1 = d.queueLock + 1
    rw [hlock]

/-- Both threads are at rest after `n` messages of which the client has taken none. -/
structure Filled (n : ℕ) (s : System) : Prop where
  atRest : s.AtRest
  flags : s.driver.chip.reg (toAddr canintf) = 0
  queueLock : s.driver.queueLock = n
  size : s.driver.rxq.size = msgQueueSize
  length : s.driver.rxq.length = min n (msgQueueSize - 1)

/-- One more message. -/
theorem Filled.next {n : ℕ} {s : System} (h : s.Filled n)
    (hs : Transition.Reachable Step Initialized s) :
    ∃ s' : System, Transition.Reachable Step Initialized s' ∧ s'.Filled (n + 1) := by
  let chip := (s.driver.chip.fill 0 blank).set (toAddr canintf) 1
  have hevent : s.driver.chip.event (.receive 0 blank) = some chip := by
    simp only [Chip.event, Chip.received, h.flags]
    rfl
  let s₁ : System :=
    { s with driver := { s.driver with chip := chip }, history := s.history.event (.receive 0 blank) }
  have hchip : Step s (.chip (.receive 0 blank)) () s₁ := by
    simp only [Step, step, hevent]
    rfl
  have hirq : Step s₁ (.irq (.bare 0)) () { s₁ with handler := irqHandler (.bare 0) } := by
    have hrest : s₁.handler = .ret () := h.atRest.2
    simp only [Step, step, hrest]
  obtain ⟨d, hrun, hflags, hlock, hrxq⟩ := @run_irqHandler_blank s₁.driver (.bare 0)
    Chip.reg_set_self (readFrom_fill _ blank 1)
  obtain ⟨history, hreach⟩ := reachable_of_handler
    (s := { s₁ with handler := irqHandler (.bare 0) }) hrun ((hs.next hchip).next hirq)
  refine ⟨_, hreach, ⟨h.atRest.1, rfl⟩, hflags, ?_, ?_, ?_⟩
  · rw [hlock]
    exact congrArg (· + 1) h.queueLock
  · rw [hrxq]
    have hsize : s₁.driver.rxq.size = msgQueueSize := h.size
    split <;> exact hsize
  · have hsize : s₁.driver.rxq.size = 128 := h.size
    have hlength : s₁.driver.rxq.length = min n 127 := h.length
    rw [hrxq]
    show _ = min (n + 1) 127
    split
    · rename_i hfull
      rw [mqIsFull_iff] at hfull
      omega
    · rename_i hroom
      have hne : s₁.driver.rxq.succ s₁.driver.rxq.tail ≠ s₁.driver.rxq.head := by
        simpa [mqIsFull] using hroom
      rw [mqIsFull_iff] at hroom
      rw [Ring.length_push hne]
      omega

theorem exists_filled (n : ℕ) :
    ∃ s : System, Transition.Reachable Step Initialized s ∧ s.Filled n := by
  induction n with
  | zero =>
      refine ⟨booted ⟨fun _ => 0⟩ fun _ => .bare 0, .of_init (initialized_booted _ _), ?_⟩
      exact ⟨⟨rfl, rfl⟩, rfl, rfl, rfl, rfl⟩
  | succ n ih =>
      obtain ⟨s, hs, hfilled⟩ := ih
      exact hfilled.next hs

/-- After 128 messages that nobody has taken, 127 frames are in the queue and the semaphore is at
128. -/
theorem not_delivers_after_overflow :
    ¬ ∀ s, Transition.Reachable Step Initialized s → s.Delivers := by
  intro h
  obtain ⟨s, hs, hfilled⟩ := exists_filled 128
  have hcounted := (h s hs).counted hfilled.atRest
  have hlength : (s.driver.queued .rx).length = 127 :=
    (Ring.length_contents _).trans hfilled.length
  rw [hfilled.queueLock, hlength] at hcounted
  cases hcounted

end System

end Can
end Tk1Bsp
