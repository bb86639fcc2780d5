import Mathlib.Data.Set.Basic
import Tk1Bsp.Can.Effects

/-!
# The transmit path never stalls

A frame in the TX queue leaves it when the handler serves a transmit buffer, and the handler serves
a buffer when its flag is set.  So a buffer keeps the queue moving while its flag is set, while its
frame is about to be sent, or while the handler has it in hand.  The invariant `Awake` says which
buffers do so: all of them, but for one whose service has just found the queue empty, while
`xmit_stopped` is 0; those that `start_xmit` has already looked at, while it looks; and some buffer
whenever a frame is queued that the client has not still to announce.
-/

namespace Tk1Bsp
namespace Can

open Prog

/-! ## Protocols of the two threads -/

/-- Where the handler is in the service of a buffer. -/
inductive Service
  | calm
  | popping
  | failing (i : Fin 3)
  | locked (i : Fin 3)
  | unlocking

/-- The work of the handler: the buffers it has in hand, whose flags it has cleared and which it has
not requested, and the service of one of them. -/
structure Work where
  hand : Set (Fin 3)
  service : Service

/-- Where the client is in a call: a queue that is not full, a frame not yet announced, the read of
`xmit_stopped`, or the loop over the buffers it has still to look at. -/
inductive Sending
  | free
  | pushing
  | owing
  | stopped
  | looking (todo : List (Fin 3))

/-- The handler has found the queue empty for buffer `i`, and `xmit_stopped` still says 0. -/
def Service.Excuses : Service → Fin 3 → Prop
  | failing i, j | locked i, j => j = i
  | _, _ => False

/-- The handler has `txb_lock`. -/
def Service.Holds : Service → Prop
  | locked _ | unlocking => True
  | _ => False

/-- The client has `txb_lock`. -/
def Sending.Holds : Sending → Prop
  | looking _ => True
  | _ => False

/-- The buffers of which the client knows nothing. -/
def Sending.todo : Sending → List (Fin 3)
  | looking todo => todo
  | _ => []

/-- The client has still to look at the buffers for a frame it has put into the queue. -/
def Sending.Pending : Sending → Prop
  | owing | stopped => True
  | looking todo => ∀ i, i ∈ todo
  | _ => False

/-- The protocol of the handler. -/
inductive Serves : Work → (o : Op) → Ans o → Work → Prop
  | aside {w : Work} {o : Op} {r : Ans o} (h : o.Plain ∨ o.Rx) : Serves w o r w
  | load {w : Work} (i : Fin 3) (buf : List (BitVec 8)) (r : List (BitVec 8))
      (hbuf : buf.length ≤ 13) : Serves w (loadOp i buf) r w
  | take (mask : BitVec 8) (r : List (BitVec 8)) :
      Serves ⟨∅, .calm⟩ (.spi [0x05, canintf, mask, 0] 0) r
        ⟨{i | mask.getLsbD (i + 2)}, .calm⟩
  | pop {hand : Set (Fin 3)} : Serves ⟨hand, .calm⟩ (.mqIsEmpty .tx) false ⟨hand, .popping⟩
  | remove {hand : Set (Fin 3)} (frame : CanFrame) :
      Serves ⟨hand, .popping⟩ (.mqRemove .tx) frame ⟨hand, .calm⟩
  | fail {hand hand' : Set (Fin 3)} {i : Fin 3} (h : ∀ j ∈ hand, j = i ∨ j ∈ hand') :
      Serves ⟨hand, .calm⟩ (.mqIsEmpty .tx) true ⟨hand', .failing i⟩
  | lock {hand : Set (Fin 3)} {i : Fin 3} : Serves ⟨hand, .failing i⟩ .txbLock () ⟨hand, .locked i⟩
  | stop {hand : Set (Fin 3)} {i : Fin 3} :
      Serves ⟨hand, .locked i⟩ (.setXmitStopped true) () ⟨hand, .unlocking⟩
  | unlock {hand : Set (Fin 3)} : Serves ⟨hand, .unlocking⟩ .txbUnlock () ⟨hand, .calm⟩
  | request {hand : Set (Fin 3)} (mask : BitVec 8) (r : List (BitVec 8))
      (hmask : mask &&& 0xF8 = 0) (h : ∀ i ∈ hand, mask.getLsbD i) :
      Serves ⟨hand, .calm⟩ (.spi [0x80 ||| mask] 0) r ⟨∅, .calm⟩

/-- The protocol of the client. -/
inductive Sends : Sending → (o : Op) → Ans o → Sending → Prop
  | aside {p : Sending} {o : Op} {r : Ans o} (h : o.Plain ∨ o.Rx) : Sends p o r p
  | load {p : Sending} (i : Fin 3) (buf : List (BitVec 8)) (r : List (BitVec 8))
      (hbuf : buf.length ≤ 13) : Sends p (loadOp i buf) r p
  | request {p : Sending} (mask : BitVec 8) (r : List (BitVec 8)) (hmask : mask &&& 0xF8 = 0) :
      Sends p (.spi [0x80 ||| mask] 0) r p
  | full : Sends .free (.mqIsFull .tx) true .free
  | room : Sends .free (.mqIsFull .tx) false .pushing
  | append (frame : CanFrame) : Sends .pushing (.mqAppend .tx frame) () .owing
  | going {p : Sending} (h : p = .free ∨ p = .owing) : Sends p .getXmitStopped false .free
  | stopped {p : Sending} (h : p = .free ∨ p = .owing) : Sends p .getXmitStopped true .stopped
  | lock : Sends .stopped .txbLock () (.looking [0, 1, 2])
  | busy {i : Fin 3} {is : List (Fin 3)} (r : List (BitVec 8))
      (h : r.headD 0 &&& txbctrlTxreq ≠ 0) :
      Sends (.looking (i :: is)) (.spi [0x03, txbctrl i] 1) r (.looking is)
  | raise {i : Fin 3} {is : List (Fin 3)} (r : List (BitVec 8)) :
      Sends (.looking (i :: is)) (.spi [0x05, canintf, canintfTx0if <<< i.val, 0xFF] 0) r
        (.looking is)
  | start {is : List (Fin 3)} : Sends (.looking is) (.setXmitStopped false) () (.looking is)
  | unlock : Sends (.looking []) .txbUnlock () .free

/-! ## The invariant -/

/-- Buffer `j` will be served without the client. -/
def Attended (w : Work) (d : Driver) (j : Fin 3) : Prop :=
  d.chip.requested j = true ∨ d.chip.flagged j = true ∨ j ∈ w.hand

/-- The invariant of the transmit path. -/
structure Awake (p : Sending) (w : Work) (d : Driver) : Prop where
  apart : d.Apart
  popping : w.service = .popping → d.queued .tx ≠ []
  room : p = .pushing → mqIsFull d.txq = false
  locked : p.Holds ∨ w.service.Holds → d.txbLock = true
  exclusive : ¬ (p.Holds ∧ w.service.Holds)
  alert : p.Holds ∨ d.xmitStopped = false →
    ∀ j, j ∉ p.todo → Attended w d j ∨ w.service.Excuses j
  woken : d.queued .tx ≠ [] → (∃ j, Attended w d j) ∨ p.Pending

/-- The same TX queue, `xmit_stopped` and lock. -/
structure Driver.SameQueue (d d' : Driver) : Prop where
  apart : d'.Apart
  txq : d'.txq = d.txq
  queued : d'.queued .tx = d.queued .tx
  xmitStopped : d'.xmitStopped = d.xmitStopped
  txbLock : d'.txbLock = d.txbLock

theorem Driver.sameQueue_chip {d : Driver} (h : d.Apart) (chip : Chip) :
    d.SameQueue { d with chip := chip } := ⟨h, rfl, rfl, rfl, rfl⟩

namespace Awake

variable {p p' : Sending} {w w' : Work} {d d' : Driver} {o : Op} {r : Ans o}

/-- Nothing that keeps the buffers attended and the queue as it is does any harm. -/
theorem mono (h : Awake p w d) (hd : d.SameQueue d') (hservice : w'.service = w.service)
    (hatt : ∀ j, Attended w d j → Attended w' d' j) : Awake p w' d' where
  apart := hd.apart
  popping := by rw [hservice, hd.queued]; exact h.popping
  room := by rw [hd.txq]; exact h.room
  locked := by rw [hservice, hd.txbLock]; exact h.locked
  exclusive := by rw [hservice]; exact h.exclusive
  alert := by
    rw [hservice, hd.xmitStopped]
    exact fun hp j hj => (h.alert hp j hj).imp_left (hatt j)
  woken := by
    rw [hd.queued]
    exact fun hq => (h.woken hq).imp_left fun ⟨j, hj⟩ => ⟨j, hatt j hj⟩

theorem aside (h : Awake p w d) (ho : o.Plain ∨ o.Rx) (hexec : exec o d = some (r, d')) :
    Awake p w d' := by
  have hapart := h.apart.exec hexec
  rcases ho with ho | ho
  · have hquiet := ho.quiet hexec
    have htxq : d'.txq = d.txq := hquiet.queue .tx
    refine h.mono ⟨hapart, htxq, ?_, hquiet.xmitStopped, hquiet.txbLock⟩ rfl fun j hj => ?_
    · rw [Driver.queued, Driver.queued, hquiet.queue, hquiet.frames]
    · rwa [Attended, hquiet.chip.requested, hquiet.chip.flagged]
  · cases ho with
    | mqIsFull | mqIsEmpty | queueLockPost =>
        cases hexec
        exact h.mono ⟨hapart, rfl, rfl, rfl, rfl⟩ rfl fun j hj => hj
    | mqAppend frame =>
        cases hexec
        have hqueued := @queued_mqAppendMsg_of_ne d h.apart .rx .tx (by rintro ⟨⟩) frame
        exact h.mono ⟨hapart, rfl, hqueued, rfl, rfl⟩ rfl fun j hj => hj
    | mqRemove =>
        cases hexec
        exact h.mono ⟨hapart, rfl, rfl, rfl, rfl⟩ rfl fun j hj => hj
    | queueLockWait =>
        simp only [exec] at hexec
        split at hexec <;> cases hexec
        exact h.mono ⟨hapart, rfl, rfl, rfl, rfl⟩ rfl fun j hj => hj

theorem load (h : Awake p w d) {i : Fin 3} {buf r : List (BitVec 8)} (hbuf : buf.length ≤ 13)
    (hexec : exec (loadOp i buf) d = some (r, d')) : Awake p w d' := by
  obtain ⟨-, rfl⟩ := exec_spi hexec
  refine h.mono (Driver.sameQueue_chip h.apart _) rfl fun j hj => ?_
  rwa [Attended, Chip.requested_load _ i j hbuf, Chip.flagged_load _ i j hbuf]

/-- What the handler does keeps the invariant. -/
theorem serves (h : Awake p w d) (hs : Serves w o r w') (hexec : exec o d = some (r, d')) :
    Awake p w' d' := by
  cases hs with
  | aside ho => exact h.aside ho hexec
  | load i buf r hbuf => exact h.load hbuf hexec
  | take mask r =>
      obtain ⟨-, rfl⟩ := exec_spi hexec
      refine h.mono (Driver.sameQueue_chip h.apart _) rfl fun j hj => ?_
      rw [Attended, Chip.requested_bitModify_canintf, Chip.flagged_clear]
      rcases hj with hj | hj | hj
      · exact .inl hj
      · by_cases hmask : mask.getLsbD (j + 2) = true
        · exact .inr (.inr hmask)
        · exact .inr (.inl (by simp [hj, hmask]))
      · exact absurd hj (Set.notMem_empty j)
  | pop =>
      obtain ⟨hempty, rfl⟩ := Prod.mk.inj (Option.some.inj hexec)
      refine ⟨h.apart, fun _ hq => ?_, h.room, h.locked, h.exclusive, h.alert, h.woken⟩
      rw [mqIsEmpty_iff.2 hq] at hempty
      cases hempty
  | @remove hand frame =>
      have hapart := h.apart.exec hexec
      have hempty : mqIsEmpty (d.queue .tx) = false := by
        rw [← Bool.not_eq_true, mqIsEmpty_iff]
        exact h.popping rfl
      have hqueued := queued_mqRemoveMsg hempty
      cases hexec
      exact ⟨hapart, (by rintro ⟨⟩), fun _ => mqIsFull_pop hempty, h.locked, h.exclusive, h.alert,
        fun _ => h.woken (by rw [hqueued]; exact List.cons_ne_nil _ _)⟩
  | @fail hand hand' i hhand =>
      obtain ⟨hempty, rfl⟩ := Prod.mk.inj (Option.some.inj hexec)
      have hq := mqIsEmpty_iff.1 hempty
      refine ⟨h.apart, (by rintro ⟨⟩), h.room, h.locked, h.exclusive, fun hp j hj => ?_,
        fun hne => absurd hq hne⟩
      rcases h.alert hp j hj with (hreq | hflag | hmem) | hexc
      · exact .inl (.inl hreq)
      · exact .inl (.inr (.inl hflag))
      · exact (hhand j hmem).symm.imp (fun hin => .inr (.inr hin)) id
      · exact absurd hexc id
  | lock =>
      simp only [exec] at hexec
      split at hexec <;> cases hexec
      rename_i hfree
      have hp : ¬ p.Holds := fun hp => hfree (h.locked (.inl hp))
      exact ⟨h.apart, (by rintro ⟨⟩), h.room, fun _ => rfl, fun hc => hp hc.1, h.alert, h.woken⟩
  | stop =>
      cases hexec
      have hp : ¬ p.Holds := fun hp => h.exclusive ⟨hp, trivial⟩
      exact ⟨h.apart, (by rintro ⟨⟩), h.room, h.locked, h.exclusive,
        fun hc => hc.elim (fun hc => absurd hc hp) (by rintro ⟨⟩), h.woken⟩
  | unlock =>
      cases hexec
      have hp : ¬ p.Holds := fun hp => h.exclusive ⟨hp, trivial⟩
      exact ⟨h.apart, (by rintro ⟨⟩), h.room, fun hc => hc.elim (fun hc => absurd hc hp) False.elim,
        fun hc => hp hc.1, fun hc => h.alert hc, h.woken⟩
  | @request hand mask r hmask hhand =>
      obtain ⟨-, rfl⟩ := exec_spi hexec
      refine h.mono (Driver.sameQueue_chip h.apart _) rfl fun j hj => ?_
      rw [Attended, Chip.requested_rts _ hmask, Chip.flagged_rts _ hmask]
      rcases hj with hj | hj | hj
      · exact .inl (by rw [hj, Bool.true_or])
      · exact .inr (.inl hj)
      · exact .inl (by rw [hhand j hj, Bool.or_true])

/-- The client has seen that buffer `i` is attended, and goes on to the next. -/
theorem looked {i : Fin 3} {is : List (Fin 3)} (h : Awake (.looking (i :: is)) w d)
    (hi : Attended w d i) : Awake (.looking is) w d where
  apart := h.apart
  popping := h.popping
  room := (by rintro ⟨⟩)
  locked := h.locked
  exclusive := h.exclusive
  alert hp j hj := by
    by_cases hji : j = i
    · exact .inl (hji ▸ hi)
    · exact h.alert hp j fun hmem => (List.mem_cons.1 hmem).elim hji hj
  woken _ := .inl ⟨i, hi⟩

/-- What the client does keeps the invariant. -/
theorem sends (h : Awake p w d) (hs : Sends p o r p') (hexec : exec o d = some (r, d')) :
    Awake p' w d' := by
  cases hs with
  | aside ho => exact h.aside ho hexec
  | load i buf r hbuf => exact h.load hbuf hexec
  | request mask r hmask =>
      obtain ⟨-, rfl⟩ := exec_spi hexec
      refine h.mono (Driver.sameQueue_chip h.apart _) rfl fun j hj => ?_
      rw [Attended, Chip.requested_rts _ hmask, Chip.flagged_rts _ hmask]
      exact hj.imp_left fun hj => by rw [hj, Bool.true_or]
  | full =>
      obtain ⟨-, rfl⟩ := Prod.mk.inj (Option.some.inj hexec)
      exact h
  | room =>
      obtain ⟨hfull, rfl⟩ := Prod.mk.inj (Option.some.inj hexec)
      exact ⟨h.apart, h.popping, fun _ => hfull, h.locked, h.exclusive, h.alert, h.woken⟩
  | append frame =>
      have hapart := h.apart.exec hexec
      have hqueued := @queued_mqAppendMsg d .tx frame (h.room rfl)
      cases hexec
      exact ⟨hapart, fun _ hq => by simp [hqueued] at hq, (by rintro ⟨⟩), h.locked, h.exclusive, h.alert,
        fun _ => .inr trivial⟩
  | going hp =>
      obtain ⟨hstopped, rfl⟩ := Prod.mk.inj (Option.some.inj hexec)
      have halert : ∀ j, Attended w d j ∨ w.service.Excuses j := by
        rcases hp with rfl | rfl <;> exact fun j => h.alert (.inr hstopped) j List.not_mem_nil
      have hlocked : w.service.Holds → d.txbLock = true := fun hw => h.locked (.inr hw)
      -- two buffers cannot both be excused
      have hsome : ∃ j, Attended w d j := by
        rcases halert 0 with h₀ | h₀
        · exact ⟨0, h₀⟩
        · rcases halert 1 with h₁ | h₁
          · exact ⟨1, h₁⟩
          · cases hw : w.service <;> rw [hw] at h₀ h₁ <;> first | exact h₀.elim | skip
            all_goals exact absurd (h₀.trans h₁.symm) (by decide)
      exact ⟨h.apart, h.popping, (by rintro ⟨⟩), fun hc => hc.elim False.elim hlocked, fun hc => hc.1,
        fun _ j _ => halert j, fun _ => .inl hsome⟩
  | stopped hp =>
      obtain ⟨hstopped, rfl⟩ := Prod.mk.inj (Option.some.inj hexec)
      have hlocked : w.service.Holds → d.txbLock = true := fun hw => h.locked (.inr hw)
      refine ⟨h.apart, h.popping, (by rintro ⟨⟩), fun hc => hc.elim False.elim hlocked, fun hc => hc.1,
        fun hc => ?_, fun _ => .inr trivial⟩
      rcases hc with hc | hc
      · exact hc.elim
      · rw [hstopped] at hc
        cases hc
  | lock =>
      simp only [exec] at hexec
      split at hexec <;> cases hexec
      rename_i hfree
      have hw : ¬ w.service.Holds := fun hw => hfree (h.locked (.inr hw))
      have hall : ∀ j : Fin 3, j ∈ [0, 1, 2] := by decide
      exact ⟨h.apart, h.popping, (by rintro ⟨⟩), fun _ => rfl, fun hc => hw hc.2,
        fun _ j hj => absurd (hall j) hj, fun _ => .inr hall⟩
  | @busy i is r hbusy =>
      obtain ⟨rfl, rfl⟩ := exec_spi hexec
      rw [Chip.spi_read, Chip.readFrom_txbctrl, List.headD_cons, Ne,
        Chip.and_txreq_eq_zero_iff, Bool.not_eq_false] at hbusy
      exact h.looked (.inl hbusy)
  | @raise i is r =>
      obtain ⟨-, rfl⟩ := exec_spi hexec
      refine looked (h.mono (Driver.sameQueue_chip h.apart _) rfl fun j hj => ?_) ?_
      · rw [Attended, Chip.requested_bitModify_canintf, Chip.flagged_raise]
        exact hj.imp_right (Or.imp_left fun hj => by rw [hj, Bool.true_or])
      · exact .inr (.inl (by rw [Chip.flagged_raise, decide_eq_true rfl, Bool.or_true]))
  | start =>
      cases hexec
      exact ⟨h.apart, h.popping, (by rintro ⟨⟩), h.locked, h.exclusive, fun _ => h.alert (.inl trivial),
        h.woken⟩
  | unlock =>
      cases hexec
      have hw : ¬ w.service.Holds := fun hw => h.exclusive ⟨trivial, hw⟩
      refine ⟨h.apart, h.popping, (by rintro ⟨⟩), fun hc => hc.elim False.elim fun hc => absurd hc hw,
        fun hc => hc.1, fun _ => h.alert (.inl trivial), fun hq => ?_⟩
      exact (h.woken hq).imp_right fun hc => absurd (hc 0) List.not_mem_nil

end Awake

/-! ## The programs obey the protocols -/

/-- The handler without work. -/
def Work.none : Work := ⟨∅, .calm⟩

theorem serves_aside {α : Type} {p : Io α} (h : p.Every fun o => o.Plain ∨ o.Rx) (w : Work) :
    p.Follows Serves w fun _ w' => w' = w :=
  h.follows fun _ _ ho => .aside ho

theorem serves_loadTxb (i : Fin 3) (frame : CanFrame) (w : Work) :
    (loadTxb i frame).Follows Serves w fun _ w' => w' = w :=
  (@every_loadTxb (fun o => ∀ r, Serves w o r w) i frame (fun _ ho _ => .aside (.inl ho))
    fun buf hbuf r => .load i buf r hbuf).follows fun _ r ho => ho r

theorem serves_serveTxb (i : Fin 3) (rts : BitVec 8) (hand : Set (Fin 3)) :
    (serveTxb i rts).Follows Serves ⟨hand, .calm⟩ fun rts' w =>
      (w = ⟨hand, .calm⟩ ∧ rts' = rts ||| 1#8 <<< i.val) ∨
        (w = ⟨hand \ {i}, .calm⟩ ∧ rts' = rts) := by
  refine (serves_aside ((plain_canidClearCache i).mono fun _ => .inl) _).seq fun _ => ?_
  refine (serves_aside (every_perform (.inl (.txbAck i))) _).seq fun _ => ?_
  rintro (_ | _)
  · -- a frame was queued
    refine ⟨_, .pop, fun frame => ⟨_, .remove frame, ?_⟩⟩
    refine (serves_aside (every_perform (.inl (.spin _))) _).seq fun _ => ?_
    exact (serves_loadTxb i frame _).seq fun _ => .inl ⟨rfl, rfl⟩
  · refine ⟨⟨hand \ {i}, .failing i⟩, .fail fun j hj => ?_, ?_⟩
    · by_cases hji : j = i
      · exact .inl hji
      · exact .inr ⟨hj, hji⟩
    · exact fun _ => ⟨_, .lock, fun _ => ⟨_, .stop, fun _ => ⟨_, .unlock, .inr ⟨rfl, rfl⟩⟩⟩⟩

/-- What the handler has in hand it has still to look at, or is going to request. -/
theorem serves_transmitLoop (tx : BitVec 8) (is : List (Fin 3)) (rts : BitVec 8)
    (hand : Set (Fin 3)) (hrts : rts &&& 0xF8 = 0)
    (hhand : ∀ j ∈ hand, (j ∈ is ∧ tx.getLsbD j) ∨ rts.getLsbD j) :
    (transmitLoop tx is rts).Follows Serves ⟨hand, .calm⟩ fun rts' w =>
      rts' &&& 0xF8 = 0 ∧ ∃ hand', w = ⟨hand', .calm⟩ ∧ ∀ j ∈ hand', rts'.getLsbD j := by
  induction is generalizing rts hand with
  | nil =>
      refine ⟨hrts, hand, rfl, fun j hj => ?_⟩
      exact (hhand j hj).elim (fun h => absurd h.1 List.not_mem_nil) id
  | cons i is ih =>
      have hrest : ∀ j ∈ hand, j ≠ i → (j ∈ is ∧ tx.getLsbD j) ∨ rts.getLsbD j := fun j hj hji =>
        (hhand j hj).imp_left fun h => ⟨(List.mem_cons.1 h.1).resolve_left hji, h.2⟩
      unfold transmitLoop
      split
      · refine ((serves_serveTxb i rts hand).mono fun rts' w h => ?_).bind
        rcases h with ⟨rfl, rfl⟩ | ⟨rfl, rfl⟩
        · refine ih _ _ ?_ fun j hj => ?_
          · rw [BitVec.and_or_distrib_right, hrts, and_bit_eq_zero]
            rfl
          · by_cases hji : j = i
            · subst hji
              exact .inr (by rw [BitVec.getLsbD_or, getLsbD_bit_eq, decide_eq_true rfl, Bool.or_true])
            · refine (hrest j hj hji).imp_right fun h => ?_
              rw [BitVec.getLsbD_or, h, Bool.true_or]
        · exact ih _ _ hrts fun j hj => hrest j hj.1 hj.2
      · rename_i htx
        refine ih _ _ hrts fun j hj => ?_
        by_cases hji : j = i
        · subst hji
          exact (hhand j hj).imp_left fun h => absurd h.2 htx
        · exact hrest j hj hji

theorem serves_transmitMessage (tx : BitVec 8) :
    (transmitMessage tx).Follows Serves .none fun _ w => w = .none := by
  intro r
  refine ⟨_, .take _ r, ?_⟩
  have hall : ∀ j : Fin 3, j ∈ [2, 1, 0] := by decide
  refine ((serves_transmitLoop tx [2, 1, 0] 0 _ rfl fun j hj => .inl ⟨hall j, ?_⟩).mono
    fun rts w h => ?_).bind
  · exact (getLsbD_txif tx j).symm.trans hj
  · obtain ⟨hrts, hand, rfl, hhand⟩ := h
    exact fun r => ⟨_, .request rts r hrts hhand, rfl⟩

theorem serves_irqHandler (frame : CanFrame) :
    (irqHandler frame).Follows Serves .none fun _ w => w = .none := by
  have hplain : ∀ {p : Io Unit}, p.Every Op.Plain → p.Follows Serves .none fun _ w => w = .none :=
    fun h => serves_aside (h.mono fun _ => .inl) _
  refine (serves_aside (every_readReg (.inl (.read _ _))) _).seq fun flags => ?_
  refine (follows_onFlag (hplain plain_reportMessageError) rfl).seq fun _ => ?_
  refine (follows_onFlag (hplain (plain_clearFlags canintfWakif (by decide))) rfl).seq fun _ => ?_
  refine (follows_onFlag (hplain plain_reportError) rfl).seq fun _ => ?_
  refine (follows_onFlag (serves_transmitMessage _) rfl).seq fun _ => ?_
  refine (follows_onFlag (serves_aside (rx_receiveMessage _ frame) _) rfl).seq fun _ => ?_
  exact hplain (every_perform .intAck)

theorem sends_aside {α : Type} {p : Io α} (h : p.Every fun o => o.Plain ∨ o.Rx) (g : Sending) :
    p.Follows Sends g fun _ g' => g' = g :=
  h.follows fun _ _ ho => .aside ho

theorem sends_raiseLoop (is : List (Fin 3)) :
    (raiseLoop is).Follows Sends (.looking is) fun _ g => g = .looking [] := by
  induction is with
  | nil => rfl
  | cons i is ih =>
      intro r
      by_cases h : r.headD 0 &&& txbctrlTxreq = 0
      · refine ⟨_, .aside (.inl (.read _ _)), ?_⟩
        simp only [pure_eq, ret_bind, if_pos h]
        exact fun r' => ⟨_, .raise r', fun _ => ⟨_, .start, ih⟩⟩
      · refine ⟨_, .busy r h, ?_⟩
        simp only [pure_eq, ret_bind, if_neg h]
        exact ih

theorem sends_startXmit {g : Sending} (hg : g = .free ∨ g = .owing) :
    startXmit.Follows Sends g fun _ g' => g' = .free := by
  rintro (_ | _)
  · exact ⟨_, .going hg, rfl⟩
  · refine ⟨_, .stopped hg, fun _ => ⟨_, .lock, ?_⟩⟩
    exact (sends_raiseLoop [0, 1, 2]).seq fun _ _ => ⟨_, .unlock, rfl⟩

theorem sends_canSend (frame : CanFrame) :
    (canSend frame).Follows Sends .free fun _ g => g = .free := by
  rintro (_ | _)
  · refine ⟨_, .room, fun _ => ⟨_, .append frame, ?_⟩⟩
    exact (sends_startXmit (.inr rfl)).seq fun _ => rfl
  · refine ⟨_, .full, ?_⟩
    exact (sends_startXmit (.inl rfl)).seq fun _ => rfl

theorem sends_loadTxb (i : Fin 3) (frame : CanFrame) (g : Sending) :
    (loadTxb i frame).Follows Sends g fun _ g' => g' = g :=
  (@every_loadTxb (fun o => ∀ r, Sends g o r g) i frame (fun _ ho _ => .aside (.inl ho))
    fun buf hbuf r => .load i buf r hbuf).follows fun _ r ho => ho r

theorem sends_canSendto (txbIdx : ℤ) (frame : CanFrame) :
    (canSendto txbIdx frame).Follows Sends .free fun _ g => g = .free := by
  refine (sends_aside ((plain_txbStatus txbIdx).mono fun _ => .inl) _).seq fun status => ?_
  split
  · by_cases h : ∃ i : Fin 3, txbIdx = i
    · obtain ⟨i, rfl⟩ := h
      rw [getFramePriority_fin]
      refine (sends_aside ((plain_getFramePriorityAt i _).mono fun _ => .inl) _).seq fun prio => ?_
      refine (sends_loadTxb i _ _).seq fun _ => ?_
      exact fun r => ⟨_, .request _ r (and_bit_eq_zero i), rfl⟩
    · obtain ⟨k, hk⟩ := getFramePriority_other (fun i hi => h ⟨i, hi⟩) frame.ident
      rw [hk]
      exact fun r => nomatch r
  · rfl

theorem sends_body (c : Call) : c.body.Follows Sends .free fun _ g => g = .free := by
  cases c with
  | send frame => exact (sends_canSend frame).seq fun _ => rfl
  | sendto txbIdx frame => exact (sends_canSendto txbIdx frame).seq fun _ => rfl
  | recv => exact (sends_aside rx_canRecv _).seq fun _ => rfl

/-! ## Runs -/

theorem Awake.event {p : Sending} {w : Work} {d : Driver} (h : Awake p w d) {e : ChipEvent}
    {chip : Chip} (he : d.chip.event e = some chip) : Awake p w { d with chip := chip } := by
  refine h.mono (Driver.sameQueue_chip h.apart chip) rfl fun j hj => ?_
  by_cases hsent : ∃ i, e = .sent i
  · obtain ⟨i, rfl⟩ := hsent
    have hchip := Chip.sent_of_event he
    rw [Attended, hchip.requested, hchip.flagged]
    by_cases hji : j = i
    · exact .inr (.inl (by rw [decide_eq_true hji, Bool.or_true]))
    · exact hj.imp (fun hj => by simp [hj, hji]) (Or.imp_left fun hj => by rw [hj, Bool.true_or])
  · have hchip := Chip.agrees_of_event (fun i hi => hsent ⟨i, hi⟩) he
    rwa [Attended, hchip.requested, hchip.flagged]

namespace System

/-- Both threads obey their protocols, and the invariant holds. -/
def Attentive (s : System) : Prop :=
  ∃ p w, Obeys Sends .free s.client p ∧
    s.handler.Follows Serves w (fun _ w' => w' = .none) ∧ Awake p w s.driver

theorem Attentive.step {s s' : System} {a : Act} (h : s.Attentive) (hstep : s.step a = some s') :
    s'.Attentive := by
  obtain ⟨p, w, hclient, hhandler, hawake⟩ := h
  cases moves_of_step hstep with
  | call c hidle =>
      rw [hidle] at hclient
      obtain rfl : p = .free := hclient
      exact ⟨.free, w, sends_body c, hhandler, hawake⟩
  | @reply c r hprog =>
      rw [hprog] at hclient
      obtain rfl : p = .free := hclient
      cases r with
      | again => exact ⟨.free, w, sends_body c, hhandler, hawake⟩
      | done | status _ | frame _ => exact ⟨.free, w, rfl, hhandler, hawake⟩
  | @client c o k r d hprog hexec =>
      rw [hprog] at hclient
      obtain ⟨p', hnext, hk⟩ := hclient r
      exact ⟨p', w, hk, hhandler, hawake.sends hnext hexec⟩
  | irq frame hrest =>
      rw [hrest] at hhandler
      obtain rfl : w = .none := hhandler
      exact ⟨p, .none, hclient, serves_irqHandler frame, hawake⟩
  | @handler o k r d hprog hexec =>
      rw [hprog] at hhandler
      obtain ⟨w', hnext, hk⟩ := hhandler r
      exact ⟨p, w', hclient, hk, hawake.serves hnext hexec⟩
  | chip hevent => exact ⟨p, w, hclient, hhandler, hawake.event hevent⟩

/-- Nothing to send, and nothing being sent: the TX queue is empty, `xmit_stopped` is 1, no buffer
is requested or flagged, and both threads are at rest. -/
structure Silent (s : System) : Prop where
  atRest : s.AtRest
  queued : s.driver.queued .tx = []
  xmitStopped : s.driver.xmitStopped = true
  requested : ∀ i, s.driver.chip.requested i = false
  flagged : ∀ i, s.driver.chip.flagged i = false
  txbLock : s.driver.txbLock = false
  apart : s.driver.Apart

theorem Silent.attentive {s : System} (h : s.Silent) : s.Attentive := by
  refine ⟨.free, .none, ?_, ?_, ?_⟩
  · rw [h.atRest.1]
    rfl
  · rw [h.atRest.2]
    rfl
  · refine ⟨h.apart, nofun, nofun, fun hc => hc.elim False.elim False.elim, fun hc => hc.1,
      fun hc => ?_, fun hq => absurd h.queued hq⟩
    rcases hc with hc | hc
    · exact hc.elim
    · rw [h.xmitStopped] at hc
      cases hc

/-- The transmit path never stalls: whenever both threads are at rest and a frame is queued, a
transmit buffer is about to be sent or has its flag set. -/
theorem attended_of_queued {s : System} (h : Transition.Reachable Step Silent s)
    (hrest : s.AtRest) (hqueued : s.driver.queued .tx ≠ []) :
    ∃ i, s.driver.chip.requested i = true ∨ s.driver.chip.flagged i = true := by
  obtain ⟨p, w, hclient, hhandler, hawake⟩ :=
    h.invariant (I := Attentive) (fun _ => Silent.attentive) fun _ _ _ _ hI hstep => hI.step hstep
  rw [hrest.1] at hclient
  rw [hrest.2] at hhandler
  obtain rfl : p = .free := hclient
  obtain rfl : w = .none := hhandler
  rcases hawake.woken hqueued with ⟨i, hi | hi | hi⟩ | hpending
  · exact ⟨i, .inl hi⟩
  · exact ⟨i, .inr hi⟩
  · exact absurd hi (Set.notMem_empty i)
  · exact hpending.elim

theorem silent_booted {chip : Chip} (hreq : ∀ i, chip.requested i = false)
    (hflag : ∀ i, chip.flagged i = false) (frames : ℕ → CanFrame) :
    (booted chip frames).Silent where
  atRest := ⟨rfl, rfl⟩
  queued := Ring.contents_empty ..
  xmitStopped := rfl
  requested := hreq
  flagged := hflag
  txbLock := rfl
  apart := .inl (Nat.le_refl _)

end System

end Can
end Tk1Bsp
