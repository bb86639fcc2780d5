import Tk1Bsp.Can.Effects

/-!
# The message queues between two threads each

Each of the queues of `queue.c` has one thread that pushes and one that pops.  The tests `mq_is_full`
and `mq_is_empty` are made outside of the lock, so what a thread has found may be old when it takes
the lock.  With one thread at each end it stays true: the consumer only makes room, and the producer
only adds frames.

`Queues` has the four threads and, of each queue, the calls that have returned, with the number of
frames that were held when the call made its test.
-/

namespace Tk1Bsp
namespace Can

open Prog

/-- A push that has returned: its frame, the number of frames held at its test, what it returned. -/
structure Push where
  frame : CanFrame
  held : ℕ
  ret : ℤ

/-- A pop that has returned. -/
structure Pop where
  held : ℕ
  ret : Option CanFrame

/-- The queues with the threads at their ends. -/
structure Queues where
  driver : Driver
  producer : QueueId → Option (CanFrame × Io ℤ)
  consumer : QueueId → Option (Io (Option CanFrame))
  producerHeld : QueueId → ℕ
  consumerHeld : QueueId → ℕ
  pushes : QueueId → List Push
  pops : QueueId → List Pop

/-- A thread starts a call, or takes its next step. -/
inductive QueueAct
  | push (q : QueueId) (frame : CanFrame)
  | produce (q : QueueId)
  | pop (q : QueueId)
  | consume (q : QueueId)

/-- The queue of a thread. -/
def QueueAct.queue : QueueAct → QueueId
  | .push q _ | .produce q | .pop q | .consume q => q

/-- The operation is the test of a queue. -/
def Op.isTest : Op → Bool
  | .mqIsFull _ | .mqIsEmpty _ => true
  | _ => false

namespace Queues

/-- What remains of a push: it goes on, or it returns. -/
def pushed (s : Queues) (q : QueueId) (frame : CanFrame) (held : ℕ) : Io ℤ → Queues
  | .ret v =>
      { s with
        producer := Function.update s.producer q none
        producerHeld := Function.update s.producerHeld q held
        pushes := Function.update s.pushes q (s.pushes q ++ [⟨frame, held, v⟩]) }
  | p =>
      { s with
        producer := Function.update s.producer q (some (frame, p))
        producerHeld := Function.update s.producerHeld q held }

/-- What remains of a pop. -/
def popped (s : Queues) (q : QueueId) (held : ℕ) : Io (Option CanFrame) → Queues
  | .ret v =>
      { s with
        consumer := Function.update s.consumer q none
        consumerHeld := Function.update s.consumerHeld q held
        pops := Function.update s.pops q (s.pops q ++ [⟨held, v⟩]) }
  | p =>
      { s with
        consumer := Function.update s.consumer q (some p)
        consumerHeld := Function.update s.consumerHeld q held }

/-- One step; nothing if it cannot be taken. -/
def step (s : Queues) : QueueAct → Option Queues
  | .push q frame =>
      match s.producer q with
      | none => some { s with producer := Function.update s.producer q (some (frame, queuePush q frame)) }
      | some _ => none
  | .produce q =>
      match s.producer q with
      | some (frame, .call o k) =>
          (exec o s.driver).map fun rd =>
            { s with driver := rd.2 }.pushed q frame
              (if o.isTest then (s.driver.queued q).length else s.producerHeld q) (k rd.1)
      | _ => none
  | .pop q =>
      match s.consumer q with
      | none => some { s with consumer := Function.update s.consumer q (some (queuePop q)) }
      | some _ => none
  | .consume q =>
      match s.consumer q with
      | some (.call o k) =>
          (exec o s.driver).map fun rd =>
            { s with driver := rd.2 }.popped q
              (if o.isTest then (s.driver.queued q).length else s.consumerHeld q) (k rd.1)
      | _ => none

/-- The step relation. -/
def Step (s : Queues) (a : QueueAct) (_ : Unit) (s' : Queues) : Prop := s.step a = some s'

/-- The state after `mq_init(size)`, with no thread inside a call. -/
def Initial (size : ℕ) (s : Queues) : Prop :=
  ∃ (h : 0 < size) (d : Driver), s = ⟨mqInit size h d, fun _ => none, fun _ => none, fun _ => 0,
    fun _ => 0, fun _ => [], fun _ => []⟩

/-- The frames of the pushes that succeeded, in order. -/
def accepted (s : Queues) (q : QueueId) : List CanFrame :=
  (s.pushes q).filterMap fun p => if p.ret = 0 then some p.frame else none

/-- The frames that pops have returned, in order. -/
def taken (s : Queues) (q : QueueId) : List CanFrame := (s.pops q).filterMap Pop.ret

/-! ## Program points -/

/-- A push behind its test. -/
def appending (q : QueueId) (frame : CanFrame) : Io ℤ := .call (.mqAppend q frame) fun _ => .ret 0

/-- A pop behind its test. -/
def removing (q : QueueId) : Io (Option CanFrame) := .call (.mqRemove q) fun frame => .ret (some frame)

/-- The steps of threads that run `queuePush` and `queuePop`. -/
inductive Moves (s : Queues) : QueueAct → Queues → Prop
  | push {q : QueueId} (frame : CanFrame) (hidle : s.producer q = none) :
      Moves s (.push q frame)
        { s with producer := Function.update s.producer q (some (frame, queuePush q frame)) }
  | full {q : QueueId} {frame : CanFrame} (hat : s.producer q = some (frame, queuePush q frame))
      (htest : mqIsFull (s.driver.queue q) = true) :
      Moves s (.produce q)
        { s with
          producer := Function.update s.producer q none
          producerHeld := Function.update s.producerHeld q (s.driver.queued q).length
          pushes := Function.update s.pushes q
            (s.pushes q ++ [⟨frame, (s.driver.queued q).length, -1⟩]) }
  | room {q : QueueId} {frame : CanFrame} (hat : s.producer q = some (frame, queuePush q frame))
      (htest : mqIsFull (s.driver.queue q) = false) :
      Moves s (.produce q)
        { s with
          producer := Function.update s.producer q (some (frame, appending q frame))
          producerHeld := Function.update s.producerHeld q (s.driver.queued q).length }
  | append {q : QueueId} {frame : CanFrame} (hat : s.producer q = some (frame, appending q frame)) :
      Moves s (.produce q)
        { s with
          driver := mqAppendMsg s.driver q frame
          producer := Function.update s.producer q none
          pushes := Function.update s.pushes q (s.pushes q ++ [⟨frame, s.producerHeld q, 0⟩]) }
  | pop {q : QueueId} (hidle : s.consumer q = none) :
      Moves s (.pop q) { s with consumer := Function.update s.consumer q (some (queuePop q)) }
  | empty {q : QueueId} (hat : s.consumer q = some (queuePop q))
      (htest : mqIsEmpty (s.driver.queue q) = true) :
      Moves s (.consume q)
        { s with
          consumer := Function.update s.consumer q none
          consumerHeld := Function.update s.consumerHeld q (s.driver.queued q).length
          pops := Function.update s.pops q (s.pops q ++ [⟨(s.driver.queued q).length, none⟩]) }
  | nonempty {q : QueueId} (hat : s.consumer q = some (queuePop q))
      (htest : mqIsEmpty (s.driver.queue q) = false) :
      Moves s (.consume q)
        { s with
          consumer := Function.update s.consumer q (some (removing q))
          consumerHeld := Function.update s.consumerHeld q (s.driver.queued q).length }
  | remove {q : QueueId} (hat : s.consumer q = some (removing q)) :
      Moves s (.consume q)
        { s with
          driver := (mqRemoveMsg s.driver q).2
          consumer := Function.update s.consumer q none
          pops := Function.update s.pops q
            (s.pops q ++ [⟨s.consumerHeld q, some (mqRemoveMsg s.driver q).1⟩]) }

/-- The threads are at points of `queuePush` and `queuePop`. -/
structure AtPoints (s : Queues) : Prop where
  producer : ∀ q frame p, s.producer q = some (frame, p) →
    p = queuePush q frame ∨ p = appending q frame
  consumer : ∀ q p, s.consumer q = some p → p = queuePop q ∨ p = removing q

theorem queuePush_eq (q : QueueId) (frame : CanFrame) :
    queuePush q frame =
      .call (.mqIsFull q) fun full => if full then .ret (-1) else appending q frame := rfl

theorem queuePop_eq (q : QueueId) :
    queuePop q = .call (.mqIsEmpty q) fun empty => if empty then .ret none else removing q := rfl

theorem moves_of_step {s s' : Queues} {a : QueueAct} (hpoints : s.AtPoints)
    (h : s.step a = some s') : s.Moves a s' := by
  cases a with
  | push q frame =>
      simp only [step] at h
      split at h
      · rename_i hidle
        cases h
        exact .push frame hidle
      · cases h
  | produce q =>
      cases hat : s.producer q with
      | none => simp [step, hat] at h
      | some fp =>
          obtain ⟨frame, p⟩ := fp
          rcases hpoints.producer q frame p hat with rfl | rfl
          · have hcall := hat
            rw [queuePush_eq] at hcall
            simp only [step, hcall, exec, Option.map_some, Option.some.injEq] at h
            subst h
            cases htest : mqIsFull (s.driver.queue q) with
            | true => exact .full hat htest
            | false => exact .room hat htest
          · have hcall := hat
            rw [appending] at hcall
            simp only [step, hcall, exec, Option.map_some, Option.some.injEq] at h
            subst h
            simpa only [pushed, Op.isTest, Bool.false_eq_true, if_false, Function.update_eq_self]
              using Moves.append hat
  | pop q =>
      simp only [step] at h
      split at h
      · rename_i hidle
        cases h
        exact .pop hidle
      · cases h
  | consume q =>
      cases hat : s.consumer q with
      | none => simp [step, hat] at h
      | some p =>
          rcases hpoints.consumer q p hat with rfl | rfl
          · have hcall := hat
            rw [queuePop_eq] at hcall
            simp only [step, hcall, exec, Option.map_some, Option.some.injEq] at h
            subst h
            cases htest : mqIsEmpty (s.driver.queue q) with
            | true => exact .empty hat htest
            | false => exact .nonempty hat htest
          · have hcall := hat
            rw [removing] at hcall
            simp only [step, hcall, exec, Option.map_some, Option.some.injEq] at h
            subst h
            simpa only [popped, Op.isTest, Bool.false_eq_true, if_false, Function.update_eq_self]
              using Moves.remove hat

/-! ## The invariant -/

/-- The first frame of a queue in the shared allocation. -/
def baseOf (size : ℕ) : QueueId → ℕ
  | .tx => 0
  | .rx => size

/-- The two queues share one allocation of `2 * size` frames. -/
structure Layout (size : ℕ) (d : Driver) : Prop where
  sizes : ∀ q, (d.queue q).size = size
  bases : ∀ q, (d.queue q).base = baseOf size q

theorem Layout.apart {size : ℕ} {d : Driver} (h : Layout size d) : d.Apart := by
  have hsize : d.txq.size = size := h.sizes .tx
  have htx : d.txq.base = 0 := h.bases .tx
  have hrx : d.rxq.base = size := h.bases .rx
  refine .inl (Nat.le_of_eq ?_)
  rw [htx, hrx, hsize, Nat.zero_add]

/-- What holds of one queue and the threads at its ends. -/
structure SoundAt (size : ℕ) (s : Queues) (q : QueueId) : Prop where
  producer : ∀ frame p, s.producer q = some (frame, p) → p = queuePush q frame ∨
    (p = appending q frame ∧ mqIsFull (s.driver.queue q) = false ∧ s.producerHeld q + 1 < size)
  consumer : ∀ p, s.consumer q = some p → p = queuePop q ∨
    (p = removing q ∧ mqIsEmpty (s.driver.queue q) = false ∧ 0 < s.consumerHeld q)
  order : s.accepted q = s.taken q ++ s.driver.queued q
  pushes : ∀ p ∈ s.pushes q, (p.ret = 0 ∧ p.held + 1 < size) ∨ (p.ret = -1 ∧ p.held + 1 = size)
  pops : ∀ p ∈ s.pops q, (∃ frame, p.ret = some frame ∧ 0 < p.held) ∨ (p.ret = none ∧ p.held = 0)

/-- The invariant. -/
structure Sound (size : ℕ) (s : Queues) : Prop where
  layout : Layout size s.driver
  queues : ∀ q, s.SoundAt size q

theorem Sound.atPoints {size : ℕ} {s : Queues} (h : s.Sound size) : s.AtPoints where
  producer q frame p hat := ((h.queues q).producer frame p hat).imp_right And.left
  consumer q p hat := ((h.queues q).consumer p hat).imp_right And.left

/-- One queue and the threads at its ends are as they were. -/
structure SameAt (s s' : Queues) (q : QueueId) : Prop where
  producer : s'.producer q = s.producer q
  consumer : s'.consumer q = s.consumer q
  producerHeld : s'.producerHeld q = s.producerHeld q
  consumerHeld : s'.consumerHeld q = s.consumerHeld q
  pushes : s'.pushes q = s.pushes q
  pops : s'.pops q = s.pops q
  queue : s'.driver.queue q = s.driver.queue q
  queued : s'.driver.queued q = s.driver.queued q

theorem SoundAt.of_same {size : ℕ} {s s' : Queues} {q : QueueId} (h : s.SoundAt size q)
    (hsame : s.SameAt s' q) : s'.SoundAt size q where
  producer := by
    rw [hsame.producer, hsame.queue, hsame.producerHeld]
    exact h.producer
  consumer := by
    rw [hsame.consumer, hsame.queue, hsame.consumerHeld]
    exact h.consumer
  order := by
    rw [accepted, taken, hsame.pushes, hsame.pops, hsame.queued]
    exact h.order
  pushes := by
    rw [hsame.pushes]
    exact h.pushes
  pops := by
    rw [hsame.pops]
    exact h.pops

theorem queue_mqAppendMsg_of_ne {d : Driver} {q q' : QueueId} (h : q' ≠ q) (frame : CanFrame) :
    (mqAppendMsg d q frame).queue q' = d.queue q' := by
  cases q <;> cases q' <;> first | rfl | exact absurd rfl h

theorem queue_mqRemoveMsg_of_ne {d : Driver} {q q' : QueueId} (h : q' ≠ q) :
    (mqRemoveMsg d q).2.queue q' = d.queue q' := by
  cases q <;> cases q' <;> first | rfl | exact absurd rfl h

variable {size : ℕ} {s s' : Queues} {a : QueueAct}

/-- A step leaves the other queue alone. -/
theorem Moves.sameAt (h : s.Moves a s') (hapart : s.driver.Apart) {q : QueueId} (hq : q ≠ a.queue) :
    s.SameAt s' q := by
  cases h <;> constructor <;>
    first
    | rfl
    | exact Function.update_of_ne hq _ _
    | exact queue_mqAppendMsg_of_ne hq _
    | exact queued_mqAppendMsg_of_ne hapart hq _
    | exact queue_mqRemoveMsg_of_ne hq
    | exact queued_mqRemoveMsg_of_ne hq

theorem shape_mqAppendMsg (d : Driver) (q q' : QueueId) (frame : CanFrame) :
    ((mqAppendMsg d q frame).queue q').size = (d.queue q').size ∧
      ((mqAppendMsg d q frame).queue q').base = (d.queue q').base := by
  cases q <;> cases q' <;> exact ⟨rfl, rfl⟩

theorem shape_mqRemoveMsg (d : Driver) (q q' : QueueId) :
    ((mqRemoveMsg d q).2.queue q').size = (d.queue q').size ∧
      ((mqRemoveMsg d q).2.queue q').base = (d.queue q').base := by
  cases q <;> cases q' <;> exact ⟨rfl, rfl⟩

theorem Moves.layout (h : s.Moves a s') (hlayout : Layout size s.driver) : Layout size s'.driver := by
  cases h with
  | @append q frame hat =>
      have hshape := fun q' => shape_mqAppendMsg s.driver q q' frame
      exact ⟨fun q' => (hshape q').1.trans (hlayout.sizes q'),
        fun q' => (hshape q').2.trans (hlayout.bases q')⟩
  | @remove q hat =>
      have hshape := shape_mqRemoveMsg s.driver q
      exact ⟨fun q' => (hshape q').1.trans (hlayout.sizes q'),
        fun q' => (hshape q').2.trans (hlayout.bases q')⟩
  | _ => exact hlayout

theorem length_queued (d : Driver) (q : QueueId) : (d.queued q).length = (d.queue q).length :=
  Ring.length_contents _

theorem accepted_push {s' : Queues} {q : QueueId} {p : Push} (h : s'.pushes q = s.pushes q ++ [p]) :
    s'.accepted q = s.accepted q ++ if p.ret = 0 then [p.frame] else [] := by
  rw [accepted, accepted, h, List.filterMap_append]
  congr 1
  by_cases hret : p.ret = 0 <;> simp [hret]

theorem taken_pop {s' : Queues} {q : QueueId} {p : Pop} (h : s'.pops q = s.pops q ++ [p]) :
    s'.taken q = s.taken q ++ p.ret.toList := by
  rw [taken, taken, h, List.filterMap_append]
  congr 1

theorem eq_of_update_some {α : Type} {f : QueueId → Option α} {q : QueueId} {x y : α}
    (h : Function.update f q (some x) q = some y) : x = y := by
  rw [Function.update_self] at h
  exact Option.some.inj h

theorem ne_of_update_none {α : Type} {f : QueueId → Option α} {q : QueueId} {y : α}
    (h : Function.update f q none q = some y) : False := by
  rw [Function.update_self] at h
  cases h

/-- One more record. -/
theorem forall_mem_update {α : Type} {f : QueueId → List α} {q : QueueId} {x : α} {P : α → Prop}
    (h : ∀ y ∈ f q, P y) (hx : P x) : ∀ y ∈ Function.update f q (f q ++ [x]) q, P y := by
  intro y hy
  rw [Function.update_self] at hy
  rcases List.mem_append.1 hy with hy | hy
  · exact h y hy
  · exact List.mem_singleton.1 hy ▸ hx

/-- What a step does to its own queue. -/
theorem Moves.soundAt (h : s.Moves a s') (hs : s.Sound size) : s'.SoundAt size a.queue := by
  cases h with
  | @push q frame hidle =>
      have hq := hs.queues q
      refine ⟨fun frame' p hat => ?_, hq.consumer, hq.order, hq.pushes, hq.pops⟩
      cases eq_of_update_some hat
      exact .inl rfl
  | @full q frame hat htest =>
      have hq := hs.queues q
      have hheld : (s.driver.queued q).length + 1 = size := by
        rw [length_queued, mqIsFull_iff.1 htest, hs.layout.sizes q]
      refine ⟨fun _ _ hat => (ne_of_update_none hat).elim, hq.consumer, ?_,
        forall_mem_update hq.pushes (.inr ⟨rfl, hheld⟩), hq.pops⟩
      refine (accepted_push (Function.update_self ..)).trans ?_
      exact (List.append_nil _).trans hq.order
  | @room q frame hat htest =>
      have hq := hs.queues q
      have hheld : (s.driver.queued q).length + 1 < size := by
        have hlt := @Ring.length_lt (s.driver.queue q)
        have hne : (s.driver.queue q).length + 1 ≠ (s.driver.queue q).size := fun h => by
          rw [mqIsFull_iff.2 h] at htest
          cases htest
        have hsize := hs.layout.sizes q
        rw [length_queued]
        omega
      refine ⟨fun frame' p hat => ?_, hq.consumer, hq.order, hq.pushes, hq.pops⟩
      cases eq_of_update_some hat
      refine .inr ⟨rfl, htest, ?_⟩
      show Function.update s.producerHeld q _ q + 1 < size
      rw [Function.update_self]
      exact hheld
  | @append q frame hat =>
      have hq := hs.queues q
      obtain ⟨-, hroom, hheld⟩ := (hq.producer frame _ hat).resolve_left nofun
      have hqueued := queued_mqAppendMsg frame hroom
      refine ⟨fun _ _ hat => (ne_of_update_none hat).elim, fun p hat => ?_, ?_,
        forall_mem_update hq.pushes (.inl ⟨rfl, hheld⟩), hq.pops⟩
      · refine (hq.consumer p hat).imp_right fun ⟨hp, _, hpos⟩ => ⟨hp, ?_, hpos⟩
        rw [← Bool.not_eq_true, mqIsEmpty_iff]
        show (mqAppendMsg s.driver q frame).queued q ≠ []
        rw [hqueued]
        exact List.append_ne_nil_of_right_ne_nil _ nofun
      · refine (accepted_push (Function.update_self ..)).trans ?_
        show s.accepted q ++ [frame] = s.taken q ++ (mqAppendMsg s.driver q frame).queued q
        rw [hqueued, hq.order, List.append_assoc]
  | @pop q hidle =>
      have hq := hs.queues q
      refine ⟨hq.producer, fun p hat => ?_, hq.order, hq.pushes, hq.pops⟩
      cases eq_of_update_some hat
      exact .inl rfl
  | @empty q hat htest =>
      have hq := hs.queues q
      have hnil : s.driver.queued q = [] := mqIsEmpty_iff.1 htest
      refine ⟨hq.producer, fun _ hat => (ne_of_update_none hat).elim, ?_, hq.pushes,
        forall_mem_update hq.pops (.inr ⟨rfl, by rw [hnil]; rfl⟩)⟩
      rw [taken_pop (Function.update_self ..)]
      exact hq.order.trans (congrArg (· ++ _) (List.append_nil _).symm)
  | @nonempty q hat htest =>
      have hq := hs.queues q
      have hne : s.driver.queued q ≠ [] := fun h => by
        rw [mqIsEmpty_iff.2 h] at htest
        cases htest
      refine ⟨hq.producer, fun p hat => ?_, hq.order, hq.pushes, hq.pops⟩
      cases eq_of_update_some hat
      refine .inr ⟨rfl, htest, ?_⟩
      show 0 < Function.update s.consumerHeld q _ q
      rw [Function.update_self]
      exact List.length_pos_iff.2 hne
  | @remove q hat =>
      have hq := hs.queues q
      obtain ⟨-, hempty, hheld⟩ := (hq.consumer _ hat).resolve_left nofun
      have hqueued := queued_mqRemoveMsg hempty
      refine ⟨fun frame p hat => ?_, fun _ hat => (ne_of_update_none hat).elim, ?_, hq.pushes,
        forall_mem_update hq.pops (.inl ⟨_, rfl, hheld⟩)⟩
      · refine (hq.producer frame p hat).imp_right fun ⟨hp, _, hlt⟩ => ⟨hp, ?_, hlt⟩
        have hpop : (mqRemoveMsg s.driver q).2.queue q = (s.driver.queue q).pop := by
          cases q <;> rfl
        show mqIsFull ((mqRemoveMsg s.driver q).2.queue q) = false
        rw [hpop]
        exact mqIsFull_pop hempty
      · rw [taken_pop (Function.update_self ..)]
        show s.accepted q = s.taken q ++ [(mqRemoveMsg s.driver q).1] ++
          (mqRemoveMsg s.driver q).2.queued q
        rw [hq.order, hqueued, List.append_assoc]
        rfl

theorem Sound.step (hs : s.Sound size) (h : s.Moves a s') : s'.Sound size where
  layout := h.layout hs.layout
  queues q := by
    by_cases hq : q = a.queue
    · exact hq ▸ h.soundAt hs
    · exact (hs.queues q).of_same (h.sameAt hs.layout.apart hq)

theorem Initial.sound (h : s.Initial size) : s.Sound size := by
  obtain ⟨hpos, d, rfl⟩ := h
  have hnil : ∀ q, (mqInit size hpos d).queued q = [] := fun q => by
    cases q <;> exact Ring.contents_empty ..
  exact ⟨⟨fun q => by cases q <;> rfl, fun q => by cases q <;> rfl⟩,
    fun q => ⟨nofun, nofun, (hnil q).symm, nofun, nofun⟩⟩

/-! ## The queues are queues -/

/-- The indices stay in their range, every frame that was accepted has been returned, in order, or
is still held, and a call fails only if its test found the queue full or empty. -/
structure Fifo (size : ℕ) (s : Queues) : Prop where
  bounds : ∀ q, (s.driver.queue q).head < size ∧ (s.driver.queue q).tail < size
  order : ∀ q, s.accepted q = s.taken q ++ s.driver.queued q
  pushes : ∀ q, ∀ p ∈ s.pushes q, (p.ret = 0 ∧ p.held + 1 < size) ∨ (p.ret = -1 ∧ p.held + 1 = size)
  pops : ∀ q, ∀ p ∈ s.pops q, (∃ frame, p.ret = some frame ∧ 0 < p.held) ∨ (p.ret = none ∧ p.held = 0)

/-- What a step may change: nothing, unless a successful call returns with it, and nothing of the
other queue. -/
structure Confined (size : ℕ) (s : Queues) (a : QueueAct) (s' : Queues) : Prop where
  change : s'.driver = s.driver ∨
    (∃ frame held, s'.pushes a.queue = s.pushes a.queue ++ [⟨frame, held, 0⟩] ∧
      s'.driver.queued a.queue = s.driver.queued a.queue ++ [frame]) ∨
    (∃ frame held, s'.pops a.queue = s.pops a.queue ++ [⟨held, some frame⟩] ∧
      s.driver.queued a.queue = frame :: s'.driver.queued a.queue)
  other : ∀ q, q ≠ a.queue → s'.driver.queue q = s.driver.queue q ∧
    ∀ k < size, s'.driver.frames (baseOf size q + k) = s.driver.frames (baseOf size q + k)

theorem Sound.fifo (h : s.Sound size) : s.Fifo size where
  bounds q := by
    have hsize := h.layout.sizes q
    have hhead := (s.driver.queue q).head_lt
    have htail := (s.driver.queue q).tail_lt
    omega
  order q := (h.queues q).order
  pushes q := (h.queues q).pushes
  pops q := (h.queues q).pops

/-- A frame of one queue is not where the other queue stores. -/
theorem frames_mqAppendMsg {d : Driver} (h : Layout size d) {q q' : QueueId} (hne : q' ≠ q)
    (frame : CanFrame) {k : ℕ} (hk : k < size) :
    (mqAppendMsg d q frame).frames (baseOf size q' + k) = d.frames (baseOf size q' + k) := by
  have htail := (d.queue q).tail_lt
  have hsize := h.sizes q
  have hbase := h.bases q
  have hslot : baseOf size q' + k ≠ (d.queue q).base + (d.queue q).tail := by
    rw [hbase]
    cases q <;> cases q' <;> first | exact absurd rfl hne | (simp only [baseOf]; omega)
  cases q <;> exact Function.update_of_ne hslot _ _

theorem Moves.confined (h : s.Moves a s') (hs : s.Sound size) : s.Confined size a s' := by
  refine ⟨?_, fun q hq => ⟨(h.sameAt hs.layout.apart hq).queue, fun k hk => ?_⟩⟩
  · cases h with
    | @append q frame hat =>
        obtain ⟨-, hroom, -⟩ := ((hs.queues q).producer frame _ hat).resolve_left nofun
        exact .inr (.inl ⟨frame, _, Function.update_self .., queued_mqAppendMsg frame hroom⟩)
    | @remove q hat =>
        obtain ⟨-, hempty, -⟩ := ((hs.queues q).consumer _ hat).resolve_left nofun
        exact .inr (.inr ⟨_, _, Function.update_self .., queued_mqRemoveMsg hempty⟩)
    | _ => exact .inl rfl
  · cases h with
    | @append q' frame hat => exact frames_mqAppendMsg hs.layout hq frame hk
    | @remove q' hat => cases q' <;> rfl
    | _ => rfl

/-- For every size and every interleaving of the four threads. -/
theorem queues_fifo (h : Transition.Reachable Step (Initial size) s) :
    s.Fifo size ∧ ∀ a s', s.Step a () s' → s.Confined size a s' := by
  have hs : s.Sound size := h.invariant (I := Sound size) (fun _ => Initial.sound)
    fun _ _ _ _ hI hstep => hI.step (moves_of_step hI.atPoints hstep)
  exact ⟨hs.fifo, fun a s' hstep => (moves_of_step hs.atPoints hstep).confined hs⟩

/-- Queues for one frame each. -/
def smallest : Queues :=
  ⟨mqInit 2 (by decide) (System.booted ⟨fun _ => 0⟩ fun _ => .bare 0).driver, fun _ => none,
    fun _ => none, fun _ => 0, fun _ => 0, fun _ => [], fun _ => []⟩

/-- A push finds room, the next one does not, and a pop gets the frame of the first. -/
theorem run_smallest :
    ([.push .tx (.bare 1), .produce .tx, .produce .tx, .push .tx (.bare 2), .produce .tx, .pop .tx,
      .consume .tx, .consume .tx].foldlM step smallest).map
      (fun s => ((s.pushes .tx).map Push.ret, s.taken .tx)) = some ([0, -1], [.bare 1]) := rfl

theorem queues_fifo_smallest :
    ∃ s : Queues, (s.pushes .tx).map Push.ret = [0, -1] ∧ s.taken .tx = [.bare 1] ∧ s.Fifo 2 := by
  obtain ⟨s, hrun, hs⟩ := Option.map_eq_some_iff.1 run_smallest
  obtain ⟨hpushes, htaken⟩ := Prod.mk.inj hs
  have hinit : smallest.Initial 2 := ⟨by decide, _, rfl⟩
  exact ⟨s, hpushes, htaken, (queues_fifo (Transition.Reachable.foldlM hrun (.of_init hinit))).1⟩

end Queues

end Can
end Tk1Bsp
