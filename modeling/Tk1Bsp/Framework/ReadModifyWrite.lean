import Mathlib.Logic.Function.Basic
import Tk1Bsp.Framework.Process

/-!
# Words that are read, changed and written back

A thread changes a word of a memory by reading it and writing a new word back.  If it shares the
memory with others, and nothing locks the word in between, then what the others do to this word in
between is lost, and what they do to other words is not.

Seen from outside, the thread works through a list of tasks (`Makes`).  It behaves like one that
changes each word at once, in a memory where changes to the word it has just read do nothing
(`Follows.advance`, `Follows.change`).  And if the others keep some part of each word, it leaves in
this part what it would leave alone (`Beside.advance`, `Beside.change`).
-/

namespace Tk1Bsp
namespace ReadModifyWrite

variable {A W α β : Type}

/-! ## Programs -/

/-- The operations: accesses to the memory, and assertions. -/
inductive Op (A W : Type)
  | read (a : A)
  | write (a : A) (w : W)
  | assert (holds : Bool)

/-- What an operation returns. -/
@[reducible] def Ans : Op A W → Type
  | .read _ => W
  | .write _ _ | .assert _ => Unit

/-- Programs of a thread. -/
abbrev Io (A W : Type) := Prog (Op A W) Ans

/-- Perform an operation. -/
def op (o : Op A W) : Io A W (Ans o) := Prog.perform o

/-- The meaning of the operations. -/
def exec [DecidableEq A] : (o : Op A W) → (A → W) → Option (Ans o × (A → W))
  | .read a, m => some (m a, m)
  | .write a w, m => some ((), Function.update m a w)
  | .assert holds, m => if holds then some ((), m) else none

/-! ## Tasks -/

/-- A change of one word. -/
structure Change (A W : Type) where
  target : A
  new : W → W

/-- The memory after a change. -/
def Change.apply [DecidableEq A] (c : Change A W) (m : A → W) : A → W :=
  Function.update m c.target (c.new (m c.target))

theorem Change.apply_of_ne [DecidableEq A] {c : Change A W} {m : A → W} {a : A}
    (h : a ≠ c.target) : c.apply m a = m a := Function.update_of_ne h ..

theorem Change.apply_self [DecidableEq A] (c : Change A W) (m : A → W) :
    c.apply m c.target = c.new (m c.target) := Function.update_self ..

/-- A change depends on its own word only. -/
theorem Change.apply_congr [DecidableEq A] {c : Change A W} {m m' : A → W}
    (h : m c.target = m' c.target) {a : A} (ha : m a = m' a) : c.apply m a = c.apply m' a := by
  by_cases hac : a = c.target
  · rw [hac, apply_self, apply_self, h]
  · rw [apply_of_ne hac, apply_of_ne hac, ha]

/-- What a thread does: read and change a word, write a word without reading it, or check an
assertion. -/
inductive Task (A W : Type)
  | modify (c : Change A W)
  | put (a : A) (w : W)
  | check

/-- The program works through these tasks, and returns. -/
inductive Makes : Io A W α → List (Task A W) → Prop
  | ret (a : α) : Makes (.ret a) []
  | modify {c : Change A W} {k : W → Io A W α} {k' : Unit → Io A W α} {ts : List (Task A W)}
      (hk : ∀ w, k w = .call (.write c.target (c.new w)) k') (h : Makes (k' ()) ts) :
      Makes (.call (.read c.target) k) (.modify c :: ts)
  | put {a : A} {w : W} {k : Unit → Io A W α} {ts : List (Task A W)} (h : Makes (k ()) ts) :
      Makes (.call (.write a w) k) (.put a w :: ts)
  | check {holds : Bool} {k : Unit → Io A W α} {ts : List (Task A W)} (hholds : holds = true)
      (h : Makes (k ()) ts) : Makes (.call (.assert holds) k) (.check :: ts)

theorem Makes.bind {p : Io A W α} {f : α → Io A W β} {ts us : List (Task A W)} (h : Makes p ts)
    (hf : ∀ a, Makes (f a) us) : Makes (p.bind f) (ts ++ us) := by
  induction h with
  | ret a => exact hf a
  | @modify c k k' us hk _ ih =>
      refine @Makes.modify A W β c _ (fun r => (k' r).bind f) _ (fun w => ?_) ih
      rw [hk, Prog.call_bind]
  | put _ ih => exact .put ih
  | check hholds _ ih => exact .check hholds ih

/-- Only a program that has returned has no task left. -/
theorem Makes.eq_nil {a : α} {ts : List (Task A W)} (h : Makes (.ret a : Io A W α) ts) :
    ts = [] := by
  cases h
  rfl

/-! ## Changes at once -/

/-- The tasks left, and whether the thread has read the word of the first one. -/
structure Position (A W : Type) where
  tasks : List (Task A W)
  opened : Bool

/-- The word that the thread has read and not yet written back. -/
def Position.window : Position A W → Option A
  | ⟨.modify c :: _, true⟩ => some c.target
  | _ => none

section Atomic

/-- The next step of a thread that changes a word at once when it would write it back. -/
def Position.next [DecidableEq A] : Position A W → (A → W) → Option (Position A W × (A → W))
  | ⟨[], _⟩, _ => none
  | ⟨.modify c :: ts, false⟩, m => some (⟨.modify c :: ts, true⟩, m)
  | ⟨.modify c :: ts, true⟩, m => some (⟨ts, false⟩, c.apply m)
  | ⟨.put a w :: ts, _⟩, m => some (⟨ts, false⟩, Function.update m a w)
  | ⟨.check :: ts, _⟩, m => some (⟨ts, false⟩, m)

/-- A change by someone else, where those to the word that the thread has read do nothing. -/
def Position.change [DecidableEq A] (q : Position A W) (c : Change A W) (m : A → W) : A → W :=
  if q.window = some c.target then m else c.apply m

/-- The program and its memory `m`, and the thread that changes words at once and its memory
`n`. -/
inductive Follows : Io A W α → (A → W) → Position A W → (A → W) → Prop
  | closed {p : Io A W α} {ts : List (Task A W)} {m : A → W} (h : Makes p ts) :
      Follows p m ⟨ts, false⟩ m
  | opened {c : Change A W} {k : Unit → Io A W α} {ts : List (Task A W)} {m n : A → W}
      (h : Makes (k ()) ts) (hrest : ∀ a, a ≠ c.target → m a = n a) :
      Follows (.call (.write c.target (c.new (n c.target))) k) m ⟨.modify c :: ts, true⟩ n

variable {p p' : Io A W α} {q : Position A W} {m m' n : A → W}

/-- The memories differ at most in the word that has been read. -/
theorem Follows.agree (h : Follows p m q n) {a : A} (ha : q.window ≠ some a) : m a = n a := by
  cases h with
  | closed h => rfl
  | opened h hrest => exact hrest a fun hc => ha (congrArg some hc.symm)

theorem Follows.eq_of_ret {a : α} (h : Follows (.ret a : Io A W α) m q n) :
    q = ⟨[], false⟩ ∧ m = n := by
  cases h with
  | closed h => exact ⟨congrArg (Position.mk · false) h.eq_nil, rfl⟩

variable [DecidableEq A]

theorem Follows.advance (h : Follows p m q n) (hp : p.advance exec m = some (p', m')) :
    ∃ q' n', q.next n = some (q', n') ∧ Follows p' m' q' n' := by
  cases h with
  | closed h =>
      cases h with
      | ret a => cases hp
      | modify hk h =>
          obtain ⟨rfl, rfl⟩ := Prod.mk.inj (Option.some.inj hp)
          exact ⟨_, _, rfl, hk _ ▸ .opened h fun _ _ => rfl⟩
      | put h =>
          obtain ⟨rfl, rfl⟩ := Prod.mk.inj (Option.some.inj hp)
          exact ⟨_, _, rfl, .closed h⟩
      | check hholds h =>
          subst hholds
          obtain ⟨rfl, rfl⟩ := Prod.mk.inj (Option.some.inj hp)
          exact ⟨_, _, rfl, .closed h⟩
  | @opened c k ts _ _ h hrest =>
      obtain ⟨rfl, rfl⟩ := Prod.mk.inj (Option.some.inj hp)
      have heq : c.apply n = Function.update m c.target (c.new (n c.target)) := by
        funext a
        by_cases ha : a = c.target
        · rw [ha, c.apply_self, Function.update_self]
        · rw [Change.apply_of_ne ha, Function.update_of_ne ha, hrest a ha]
      exact ⟨_, _, rfl, heq ▸ .closed h⟩

theorem Follows.change (h : Follows p m q n) (c : Change A W) :
    Follows p (c.apply m) q (q.change c n) := by
  cases h with
  | closed h =>
      rw [Position.change, if_neg (by simp [Position.window])]
      exact .closed h
  | @opened d k ts _ _ h hrest =>
      have hwindow : (⟨.modify d :: ts, true⟩ : Position A W).window = some d.target := rfl
      by_cases hc : d.target = c.target
      · rw [Position.change, hwindow, if_pos (congrArg some hc)]
        exact .opened h fun a ha => (Change.apply_of_ne (hc ▸ ha)).trans (hrest a ha)
      · rw [Position.change, hwindow, if_neg fun heq => hc (Option.some.inj heq)]
        rw [← Change.apply_of_ne hc (m := n)]
        exact .opened h fun a ha => Change.apply_congr (hrest _ (Ne.symm hc)) (hrest a ha)

end Atomic

/-! ## A part that the others keep -/

section Beside

variable {S : A → W → W → Prop}

/-- A task that makes words of words that agree, so that they agree again. -/
def Task.Respects (S : A → W → W → Prop) : Task A W → Prop
  | .modify c => ∀ w w', S c.target w w' → S c.target (c.new w) (c.new w')
  | .put a w => S a w w
  | .check => True

/-- A program that runs alone, and the same program among others, where the memories agree and the
words that are about to be written back do. -/
inductive Beside (S : A → W → W → Prop) : Io A W α → (A → W) → Io A W α → (A → W) → Prop
  | same {p : Io A W α} {ts : List (Task A W)} {m n : A → W} (h : Makes p ts)
      (hts : ∀ t ∈ ts, t.Respects S) (hS : ∀ a, S a (m a) (n a)) : Beside S p m p n
  | writing {a : A} {w w' : W} {k : Unit → Io A W α} {ts : List (Task A W)} {m n : A → W}
      (h : Makes (k ()) ts) (hts : ∀ t ∈ ts, t.Respects S) (hw : S a w w')
      (hS : ∀ a, S a (m a) (n a)) : Beside S (.call (.write a w) k) m (.call (.write a w') k) n

variable {p p' q : Io A W α} {m m' n n' : A → W}

theorem Beside.agree (h : Beside S p m q n) (a : A) : S a (m a) (n a) := by
  cases h with
  | same _ _ hS | writing _ _ _ hS => exact hS a

/-- Changes by others that keep the part leave the program where it is. -/
theorem Beside.change (h : Beside S p m q n) (hn : ∀ a, S a (m a) (n a) → S a (m a) (n' a)) :
    Beside S p m q n' := by
  cases h with
  | same h hts hS => exact .same h hts fun a => hn a (hS a)
  | writing h hts hw hS => exact .writing h hts hw fun a => hn a (hS a)

theorem Beside.eq_of_ret {a : α} (h : Beside S p m (.ret a) n) : p = .ret a := by
  cases h
  rfl

variable [DecidableEq A]

theorem agree_update (hS : ∀ a, S a (m a) (n a)) {b : A} {w w' : W} (hw : S b w w') (a : A) :
    S a (Function.update m b w a) (Function.update n b w' a) := by
  by_cases ha : a = b
  · subst ha
    rwa [Function.update_self, Function.update_self]
  · rw [Function.update_of_ne ha, Function.update_of_ne ha]
    exact hS a

/-- When the program among others takes a step, the program alone can take it too. -/
theorem Beside.advance (h : Beside S p m q n) {q' : Io A W α}
    (hq : q.advance exec n = some (q', n')) :
    ∃ p' m', p.advance exec m = some (p', m') ∧ Beside S p' m' q' n' := by
  cases h with
  | same h hts hS =>
      cases h with
      | ret a => cases hq
      | @modify c k k' us hk h =>
          obtain ⟨hc, hus⟩ := List.forall_mem_cons.1 hts
          obtain ⟨rfl, rfl⟩ := Prod.mk.inj (Option.some.inj hq)
          refine ⟨_, _, rfl, ?_⟩
          rw [hk, hk]
          exact .writing h hus (hc _ _ (hS _)) hS
      | put h =>
          obtain ⟨hput, hus⟩ := List.forall_mem_cons.1 hts
          obtain ⟨rfl, rfl⟩ := Prod.mk.inj (Option.some.inj hq)
          exact ⟨_, _, rfl, .same h hus (agree_update hS hput)⟩
      | check hholds h =>
          subst hholds
          obtain ⟨rfl, rfl⟩ := Prod.mk.inj (Option.some.inj hq)
          exact ⟨_, _, rfl, .same h (List.forall_mem_cons.1 hts).2 hS⟩
  | writing h hts hw hS =>
      obtain ⟨rfl, rfl⟩ := Prod.mk.inj (Option.some.inj hq)
      exact ⟨_, _, rfl, .same h hts (agree_update hS hw)⟩

/-- A step of a program that runs alone does not change what its run leaves. -/
theorem run_of_advance (h : p.advance exec m = some (p', m')) :
    p.run exec m = p'.run exec m' := by
  obtain ⟨o, k, r, rfl, hexec, rfl⟩ := Prog.advance_eq_some h
  exact Prog.run_call_of_exec hexec

end Beside

end ReadModifyWrite
end Tk1Bsp
