import Tk1Bsp.TimeServer.Server

/-!
# The list of armed timers

`Server.Holds s A l` says that the pointers of `s` spell `l`, that `l` has exactly the timers in
`A`, and that it is sorted by deadline.  `remove_timer` takes one timer out of `A` and
`insert_timer` puts one in; neither writes anything but pointers, which the rules below say by
giving the result as `s.setLinks L`.

`Server.WellFormed` is the representation invariant of the server between operations: the list
holds exactly the timers that are not off, and every timer still carries the numbers
`post_init` gave it.
-/

namespace Tk1Bsp
namespace TimeServer

variable {nc nt : ℕ}

namespace Server

variable (s : Server nc nt) (L : Links (TimerRef nc nt)) (t : TimerRef nc nt)
  (b : TimerBody nc nt)

/-! ## Which fields the updates touch -/

@[simp] theorem links_setLinks : (s.setLinks L).links = L := rfl
@[simp] theorem body_setLinks : (s.setLinks L).body = s.body := rfl
@[simp] theorem completed_setLinks : (s.setLinks L).completed = s.completed := rfl
@[simp] theorem theCurrentTime_setLinks : (s.setLinks L).theCurrentTime = s.theCurrentTime := rfl
@[simp] theorem timeServerHeld_setLinks : (s.setLinks L).timeServerHeld = s.timeServerHeld := rfl

@[simp] theorem completed_setBody : (s.setBody t b).completed = s.completed := rfl
@[simp] theorem theCurrentTime_setBody : (s.setBody t b).theCurrentTime = s.theCurrentTime := rfl
@[simp] theorem timeServerHeld_setBody : (s.setBody t b).timeServerHeld = s.timeServerHeld := rfl

@[simp] theorem body_setBody : (s.setBody t b).body = Function.update s.body t b := by
  funext u
  by_cases h : u = t
  · subst h
    simp [body, setBody]
  · simp [body, setBody, Function.update_of_ne h]

@[simp] theorem links_setBody : (s.setBody t b).links = s.links := by
  have h : ∀ u, ((s.setBody t b).timers u).prev = (s.timers u).prev ∧
      ((s.setBody t b).timers u).next = (s.timers u).next := by
    intro u
    by_cases hu : u = t
    · subst hu
      simp [setBody]
    · simp [setBody, Function.update_of_ne hu]
  exact Links.ext rfl (funext fun u => (h u).1) (funext fun u => (h u).2)

@[simp] theorem body_markCompleted (c : Fin nc) (i : ℕ) : (s.markCompleted c i).body = s.body := rfl
@[simp] theorem links_markCompleted (c : Fin nc) (i : ℕ) :
    (s.markCompleted c i).links = s.links := rfl
@[simp] theorem theCurrentTime_markCompleted (c : Fin nc) (i : ℕ) :
    (s.markCompleted c i).theCurrentTime = s.theCurrentTime := rfl
@[simp] theorem timeServerHeld_markCompleted (c : Fin nc) (i : ℕ) :
    (s.markCompleted c i).timeServerHeld = s.timeServerHeld := rfl

/-! ## What the list holds -/

/-- The key the list is sorted by. -/
def deadline (t : TimerRef nc nt) : ℕ := (s.body t).timeoutTime.toNat

/-- The list is `l`: exactly the timers in `A`, in order of their deadlines. -/
structure Holds (A : TimerRef nc nt → Prop) (l : List (TimerRef nc nt)) : Prop where
  represents : s.links.Represents l
  mem_iff : ∀ t, t ∈ l ↔ A t
  sorted : l.Pairwise (Links.KeyLE s.deadline)

variable {s L t b}

namespace Holds

variable {A B : TimerRef nc nt → Prop} {l : List (TimerRef nc nt)}

/-- Fields of timers that are not listed, and everything that is neither a pointer nor a
deadline, are free to change. -/
theorem congr {s' : Server nc nt} (h : s.Holds A l) (hlinks : s'.links = s.links)
    (hbody : ∀ u, A u → (s'.body u).timeoutTime = (s.body u).timeoutTime)
    (hAB : ∀ u, A u ↔ B u) : s'.Holds B l where
  represents := hlinks ▸ h.represents
  mem_iff u := (h.mem_iff u).trans (hAB u)
  sorted := by
    refine h.sorted.imp_of_mem fun {a c} ha hc hle => ?_
    have hd : ∀ u, u ∈ l → s'.deadline u = s.deadline u := fun u hu => by
      unfold deadline
      rw [hbody u ((h.mem_iff u).1 hu)]
    unfold Links.KeyLE at hle ⊢
    rwa [hd a ha, hd c hc]

/-- The rule for `remove_timer` on a listed timer: the assertion holds, and only pointers
change. -/
theorem removeTimer (h : s.Holds A l) (ht : A t) :
    ∃ L, s.removeTimer t = .ok (s.setLinks L) ∧
      (s.setLinks L).Holds (fun u => A u ∧ u ≠ t) (l.erase t) := by
  have htl : t ∈ l := (h.mem_iff t).2 ht
  refine ⟨s.links.unlink t, ?_, ?_, fun u => ?_, ?_⟩
  · have hassert : ¬ ((s.timers t).prev = none ∧ s.timerHead ≠ some t) := by
      rintro ⟨hprev, hhead⟩
      exact hhead (h.represents.head_of_prev_none htl hprev)
    exact if_neg hassert
  · obtain ⟨l₁, l₂, rfl⟩ := List.append_of_mem htl
    have hl₁ : t ∉ l₁ := fun hc =>
      (List.nodup_append.1 h.represents.nodup).2.2 t hc t (List.mem_cons_self ..) rfl
    rw [List.erase_append_right _ hl₁, List.erase_cons_head]
    exact h.represents.unlink
  · rw [h.represents.nodup.mem_erase_iff, h.mem_iff u]
    exact and_comm
  · exact h.sorted.sublist List.erase_sublist

/-- The rule for `insert_timer` on an unlisted timer: the walk ends, and only pointers change. -/
theorem insertTimer (h : s.Holds A l) (ht : ¬ A t) :
    ∃ L, s.insertTimer t = .ok (s.setLinks L) ∧
      (s.setLinks L).Holds (fun u => A u ∨ u = t)
        (l.orderedInsert (Links.KeyLE s.deadline) t) := by
  have htl : t ∉ l := fun hc => ht ((h.mem_iff t).1 hc)
  obtain ⟨c, r, hseek, hrep⟩ :=
    h.represents.insertSorted s.deadline htl h.represents.length_lt
  refine ⟨s.links.linkBetween t c r, ?_, hrep, fun u => ?_, ?_⟩
  · have hwalk : s.links.seek (fun u => decide ((s.body u).timeoutTime < (s.body t).timeoutTime))
        (Fintype.card (TimerRef nc nt) + 1) none s.timerHead = some (c, r) := hseek
    unfold Server.insertTimer
    rw [hwalk]
  · rw [List.mem_orderedInsert, h.mem_iff u]
    exact or_comm
  · exact h.sorted.orderedInsert t l

/-- If the head is not due, nothing on the list is. -/
theorem not_due_of_dueHead_none (h : s.Holds A l) {now : BitVec 64} (hd : s.dueHead now = none)
    (ht : A t) : now < (s.body t).timeoutTime := by
  have htl : t ∈ l := (h.mem_iff t).2 ht
  have hhead : s.timerHead = l.head? := h.represents.head_eq
  cases l with
  | nil => simp at htl
  | cons u l =>
      have hu : now < (s.body u).timeoutTime := by
        simp only [dueHead, hhead, List.head?_cons] at hd
        split at hd
        · cases hd
        · exact BitVec.not_le.1 ‹_›
      rcases List.mem_cons.1 htl with rfl | htl
      · exact hu
      · exact Nat.lt_of_lt_of_le hu (List.rel_of_pairwise_cons h.sorted htl)

end Holds

theorem dueHead_eq_some {now : BitVec 64} (hd : s.dueHead now = some t) :
    s.links.head = some t ∧ (s.body t).timeoutTime ≤ now := by
  unfold dueHead at hd
  split at hd
  · rename_i u hu
    split at hd
    · rename_i hle
      obtain rfl := Option.some.inj hd
      exact ⟨hu, hle⟩
    · cases hd
  · cases hd

/-! ## The representation invariant -/

/-- A timer is armed when it is not off. -/
def Armed (s : Server nc nt) (t : TimerRef nc nt) : Prop := (s.body t).timerType ≠ .off

/-- The representation invariant: the list holds exactly the armed timers, and every timer
carries the client and timer numbers of its place in the arrays. -/
structure WellFormed (s : Server nc nt) : Prop where
  list : ∃ l, s.Holds s.Armed l
  labels : ∀ t, (s.body t).clientId = t.1 ∧ (s.body t).id = t.2

theorem wellFormed_booted : (booted nc nt).WellFormed where
  list := ⟨[], .nil rfl, by simp [Armed, booted, body], List.Pairwise.nil⟩
  labels t := by simp [booted, body]

end Server

end TimeServer
end Tk1Bsp
