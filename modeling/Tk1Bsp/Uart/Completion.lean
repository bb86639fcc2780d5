import Mathlib.Data.Fintype.Basic
import Mathlib.Tactic.FinCases
import Tk1Bsp.Framework.Protocol
import Tk1Bsp.Uart.System

/-!
# Calls return on their own completion

A line goes through the phases of `Phase`: a call begins, its request is accepted and completed, the
waiting mutex is unlocked once while it is held, and the call returns the bytes of that request.  A
call that is refused returns a negative number.  The history of every line obeys this automaton, in
all interleavings of the client with the three interrupt handlers.

The permission to return is a token that is passed from the platform driver to the handler, from
there through `do_release` and the mutex to the caller.  `Token` lists the places where it can be;
`CallerRule` and `HandlerRule` say what the two threads may do there.
-/

namespace Tk1Bsp
namespace Uart

/-! ## The life of a request -/

/-- How far the call of a line has come. -/
inductive Phase
  | idle
  | called
  | accepted
  | completed (bytes : BitVec 32)
  | released (bytes : BitVec 32)
  deriving DecidableEq

namespace Phase

/-- What may happen next, and where it leads. -/
def next : Phase → Event → Option Phase
  | idle, .call => some called
  | called, .accept => some accepted
  | called, .return ret => if ret < 0 then some idle else none
  | accepted, .complete bytes => some (completed bytes)
  | completed bytes, .unlock true => some (released bytes)
  | released bytes, .return ret => if ret = bytes.toInt then some idle else none
  | _, _ => none

/-- The phase after some events; nothing if one of them is out of place. -/
def after (φ : Phase) (es : List Event) : Option Phase := es.foldlM next φ

@[simp] theorem after_nil (φ : Phase) : φ.after [] = some φ := rfl

@[simp] theorem after_singleton (φ : Phase) (e : Event) : φ.after [e] = φ.next e :=
  bind_pure _

theorem after_append {φ φ' : Phase} {es fs : List Event} (h : φ.after es = some φ') :
    φ.after (es ++ fs) = φ'.after fs := by
  rw [after, List.foldlM_append]
  change (φ.after es >>= fun φ' => φ'.after fs) = φ'.after fs
  rw [h]
  rfl

end Phase

/-! ## What the threads may do -/

/-- The line that an operation changes. -/
def Op.line : Op → Option (Fin 3 × Channel)
  | .cdevStart u c _ | .syncLock u c | .syncUnlock u c | .clearRelease u c => some (u, c)
  | .callback u e => some (u, e.channel)
  | _ => none

/-- Where the thread of the client is, seen from one line. -/
inductive Stage
  | out
  | entered
  | waiting
  | acquired
  | got (bytes : BitVec 32)

/-- What a call may return. -/
def Stage.Returns : Stage → ℤ → Prop
  | .out, _ => True
  | .entered, ret => ret < 0
  | .got bytes, ret => ret = bytes.toInt
  | _, _ => False

/-- What the thread of the client may do. -/
inductive CallerRule (u : Fin 3) (c : Channel) : Stage → (o : Op) → Ans o → Stage → Prop
  | away {g : Stage} {o : Op} {r : Ans o} (hline : o.line ≠ some (u, c))
      (hg : g = .out ∨ g = .entered) : CallerRule u c g o r g
  | start (nbytes ret : ℤ) : CallerRule u c .entered (.cdevStart u c nbytes) ret
      (if 0 ≤ ret then .waiting else .entered)
  | stateUnlock : CallerRule u c .waiting (.stateUnlock u) () .waiting
  | syncLock : CallerRule u c .waiting (.syncLock u c) () .acquired
  | bytes (bytes : BitVec 32) : CallerRule u c .acquired (.bytesTransfered u c) bytes (.got bytes)

/-- Where an interrupt handler is, seen from one line of its UART. -/
inductive Duty
  | rest
  | due (e : Completion)
  | watch
  | clearing
  | unlocking

/-- What an interrupt handler may do. -/
inductive HandlerRule (u : Fin 3) (c : Channel) : Duty → (o : Op) → Ans o → Duty → Prop
  | away {w : Duty} {o : Op} {r : Ans o} (hline : o.line ≠ some (u, c)) : HandlerRule u c w o r w
  | completes {l : Completions} {e : Completion} (he : e ∈ l.list) (hc : e.channel = c) :
      HandlerRule u c .rest (.cdevHandleIrq u) l (.due e)
  | callback {e : Completion} (hc : e.channel = c) :
      HandlerRule u c (.due e) (.callback u e) () .watch
  | tests {w : Duty} {release : Bool} (hw : w = .rest ∨ w = .watch) :
      HandlerRule u c w (.getRelease u c) release (if release then .clearing else .rest)
  | clears : HandlerRule u c .clearing (.clearRelease u c) () .unlocking
  | unlocks : HandlerRule u c .unlocking (.syncUnlock u c) () .rest

section Programs

variable {u : Fin 3} {c : Channel}

/-- An operation that changes only lines of one kind. -/
def Op.Within (P : Fin 3 × Channel → Prop) (o : Op) : Prop := ∀ l, o.line = some l → P l

variable {P : Fin 3 × Channel → Prop} {o : Op}

/-- An operation that changes no line. -/
theorem Op.line_ne (h : o.line = none) : o.line ≠ some (u, c) :=
  h ▸ (Option.some_ne_none _).symm

theorem Op.Within.away (h : o.Within P) (hl : ¬ P (u, c)) : o.line ≠ some (u, c) :=
  fun heq => hl (h _ heq)

/-- The lines that an operation concerns, and so those that it changes. -/
theorem Op.About.within {C : Channel → Prop} (h : o.About u C) (hC : ∀ c, C c → P (u, c)) :
    o.Within P := by
  intro l hl
  cases o with
  | cdevStart | syncLock | syncUnlock | clearRelease | callback =>
      obtain ⟨rfl, hc⟩ := h
      exact Option.some.inj hl ▸ hC _ hc
  | _ => cases hl

theorem Op.About.away {u' : Fin 3} {C : Channel → Prop} (h : o.About u' C)
    (hC : ∀ c', C c' → (u', c') ≠ (u, c)) : o.line ≠ some (u, c) :=
  (h.within (P := (· ≠ (u, c))) hC).away fun hne => hne rfl

theorem follows_transfer (u : Fin 3) (c : Channel) (nbytes : ℤ) :
    (tk1UartTransfer c u nbytes).Follows (CallerRule u c) .entered fun ret g => g.Returns ret := by
  have hrefused : Stage.entered.Returns (-1) := show (-1 : ℤ) < 0 by decide
  simp only [tk1UartTransfer, op, Prog.bind_eq, Prog.perform_bind]
  refine fun buff => ⟨.entered, .away (Op.line_ne rfl) (.inr rfl), ?_⟩
  cases buff with
  | false => exact hrefused
  | true =>
      refine fun _ => ⟨.entered, .away (Op.line_ne rfl) (.inr rfl), ?_⟩
      have hinit : (initDevice u).Every (Op.About u fun _ => False) := about_initDevice u _
      refine Prog.Follows.seq (hinit.follows fun o r ho => ?_) fun ready => ?_
      · exact .away (ho.away fun _ hc => hc.elim) (.inr rfl)
      · cases ready with
        | false => exact hrefused
        | true =>
            intro ret
            refine ⟨_, .start nbytes ret, ?_⟩
            beta_reduce
            by_cases hret : ret < 0
            · rw [if_neg (Int.not_le.2 hret), if_pos hret]
              exact fun _ => ⟨.entered, .away (Op.line_ne rfl) (.inr rfl), hret⟩
            · rw [if_pos (Int.not_lt.1 hret), if_neg hret]
              exact fun _ => ⟨.waiting, .stateUnlock, fun _ => ⟨.acquired, .syncLock,
                fun bytes => ⟨.got bytes, .bytes bytes, rfl⟩⟩⟩

/-- A call obeys the rules of every line, and is out of all but its own. -/
theorem follows_body (nvUartaAsync : ℤ) (q : Call) :
    (q.body nvUartaAsync).Follows (CallerRule u c)
      (if q.target nvUartaAsync = some (u, c) then .entered else .out)
      fun ret g => g.Returns ret := by
  rw [Call.body_eq, tk1UartCall, Call.target]
  cases uartIndex nvUartaAsync q.uartNum with
  | none => exact trivial
  | some u' =>
      by_cases hl : (u', q.channel) = (u, c)
      · obtain ⟨rfl, rfl⟩ := Prod.mk.inj hl
        rw [Option.map_some, if_pos rfl]
        exact follows_transfer u' q.channel q.nbytes
      · rw [Option.map_some, if_neg fun h => hl (Option.some.inj h)]
        have hout : (tk1UartTransfer q.channel u' q.nbytes).Follows (CallerRule u c) .out
            fun _ g => g = .out :=
          (about_transfer q.channel u' q.nbytes).follows fun o r ho =>
            .away (ho.away fun _ hc => hc ▸ hl) (.inl rfl)
        exact hout.mono fun ret g hg => hg ▸ trivial

theorem within_irqHandle (hl : ∀ c, P (u, c)) : (tk1UartIrqHandle u).Every (Op.Within P) :=
  (about_irqHandle u).mono fun _ h => h.within fun c _ => hl c

/-- The callbacks of other lines leave a handler where it is. -/
theorem follows_otherCallbacks {es : List Completion} (hes : c ∉ es.map Completion.channel)
    (w : Duty) :
    (runCallbacks u es).Follows (HandlerRule u c) w fun _ w' => w' = w := by
  have hne : ∀ e ∈ es, e.channel ≠ c := fun e he hc => hes (List.mem_map.2 ⟨e, he, hc⟩)
  have habout : (runCallbacks u es).Every (Op.About u (· ≠ c)) := about_runCallbacks hne
  exact habout.follows fun o r ho =>
    .away (ho.away fun _ hc heq => hc (congrArg Prod.snd heq))

/-- The callback of a line comes once among those of a run. -/
theorem follows_runCallbacks {es : List Completion} {e : Completion}
    (hnodup : (es.map Completion.channel).Nodup) (he : e ∈ es) (hc : e.channel = c) :
    (runCallbacks u es).Follows (HandlerRule u c) (.due e) fun _ w => w = .watch := by
  induction es with
  | nil => exact absurd he List.not_mem_nil
  | cons e' es ih =>
      rw [List.map_cons, List.nodup_cons] at hnodup
      rcases List.mem_cons.1 he with rfl | he
      · exact fun _ => ⟨.watch, .callback hc, follows_otherCallbacks (hc ▸ hnodup.1) .watch⟩
      · have hne : e'.channel ≠ c := fun h => hnodup.1 (List.mem_map.2 ⟨e, he, hc.trans h.symm⟩)
        have haway : (Op.callback u e').line ≠ some (u, c) := fun h => by
          exact hne (congrArg Prod.snd (Option.some.inj h))
        exact fun _ => ⟨.due e, .away haway, ih hnodup.2 he⟩

theorem follows_releaseCaller {w : Duty} (hw : w = .rest ∨ w = .watch) :
    (releaseCaller u c).Follows (HandlerRule u c) w fun _ w' => w' = .rest := by
  intro release
  refine ⟨_, .tests hw, ?_⟩
  cases release with
  | false => rfl
  | true => exact fun _ => ⟨.unlocking, .clears, fun _ => ⟨.rest, .unlocks, rfl⟩⟩

theorem follows_otherRelease {c' : Channel} (hc : c' ≠ c) (w : Duty) :
    (releaseCaller u c').Follows (HandlerRule u c) w fun _ w' => w' = w :=
  (about_releaseCaller (C := (· ≠ c)) hc).follows fun _ _ ho =>
    .away (ho.away fun _ hc heq => hc (congrArg Prod.snd heq))

/-- A handler that has made its callbacks tests the request of a line once. -/
theorem follows_releases {w : Duty} (hw : w = .rest ∨ w = .watch) :
    ((releaseCaller u .write).bind fun _ => releaseCaller u .read).Follows (HandlerRule u c) w
      fun _ w' => w' = .rest := by
  cases c with
  | write =>
      exact (follows_releaseCaller hw).seq fun _ => follows_otherRelease (by decide) .rest
  | read =>
      exact (follows_otherRelease (by decide) w).seq fun _ => follows_releaseCaller hw

theorem follows_irqHandler :
    (tk1UartIrqHandler u).Follows (HandlerRule u c) .rest fun _ w => w = .rest := by
  simp only [tk1UartIrqHandler, op, Prog.bind_eq, Prog.perform_bind]
  refine fun pinst => ⟨.rest, .away (Op.line_ne rfl), fun _ => ⟨.rest, .away (Op.line_ne rfl),
    fun _ => ⟨.rest, .away (Op.line_ne rfl), fun l => ?_⟩⟩⟩
  by_cases hc : c ∈ l.list.map Completion.channel
  · obtain ⟨e, he, hec⟩ := List.mem_map.1 hc
    refine ⟨.due e, .completes he hec, ?_⟩
    exact (follows_runCallbacks l.nodup he hec).seq fun _ _ =>
      ⟨.watch, .away (Op.line_ne rfl), follows_releases (.inr rfl)⟩
  · refine ⟨.rest, .away (Op.line_ne rfl), ?_⟩
    exact (follows_otherCallbacks hc .rest).seq fun _ _ =>
      ⟨.rest, .away (Op.line_ne rfl), follows_releases (.inl rfl)⟩

theorem follows_irqHandle :
    (tk1UartIrqHandle u).Follows (HandlerRule u c) .rest fun _ w => w = .rest :=
  follows_irqHandler.seq fun _ _ => ⟨.rest, .away (Op.line_ne rfl), rfl⟩

end Programs

/-! ## The token -/

/-- The places of the permission to return, with the line that goes with them. -/
inductive Token : Line → Phase → Stage → Duty → Prop
  | out {b m n} : Token ⟨b, true, false, false, m, n⟩ .idle .out .rest
  | entered {b m n} : Token ⟨b, true, false, false, m, n⟩ .called .entered .rest
  | accepted {b m n w} (hw : w = .rest ∨ ∃ e, w = .due e ∧ 0 < e.bytesRequested) :
      Token ⟨b, true, false, true, m, n⟩ .accepted .waiting w
  | flagged {b m n w} (hw : w = .watch ∨ w = .clearing) :
      Token ⟨b, true, true, false, m, n⟩ (.completed n) .waiting w
  | unlocking {b m n} : Token ⟨b, true, false, false, m, n⟩ (.completed n) .waiting .unlocking
  | free {b m n} : Token ⟨b, false, false, false, m, n⟩ (.released n) .waiting .rest
  | acquired {b m n} : Token ⟨b, true, false, false, m, n⟩ (.released n) .acquired .rest
  | got {b m n} : Token ⟨b, true, false, false, m, n⟩ (.released n) (.got n) .rest

section Steps

variable {u : Fin 3} {c : Channel} {d d' : Cdevs} {x : Outcome} {o : Op} {r : Ans o} {φ : Phase}
  {g g' : Stage} {w w' : Duty}

theorem line_exec (hexec : exec x o d = some (r, d')) (hline : o.line ≠ some (u, c)) :
    d'.line u c = d.line u c := by
  have hne : ∀ {l}, o.line = some l → l ≠ (u, c) := fun h hl => hline (h.trans (congrArg some hl))
  cases o with
  | cdevStart | stateLock | syncLock | cdevHandleIrq | assert =>
      simp only [exec] at hexec
      split at hexec <;> cases hexec
      all_goals first | rfl | exact Cdevs.line_setLine_of_ne (hne rfl)
  | syncUnlock | clearRelease | callback =>
      cases hexec
      exact Cdevs.line_setLine_of_ne (hne rfl)
  | _ =>
      cases hexec
      rfl

theorem line_of_event {l : Fin 3 × Channel} {e : Event} (h : o.event r d = some (l, e)) :
    o.line = some l := by
  cases o with
  | cdevStart =>
      simp only [Op.event] at h
      split at h <;> cases h
      rfl
  | callback | syncUnlock =>
      cases h
      rfl
  | _ => cases h

theorem on_event (hline : o.line ≠ some (u, c)) : Log.on (o.event r d).toList u c = [] := by
  cases h : o.event r d with
  | none => rfl
  | some le =>
      exact Log.on_singleton_of_ne le.2 fun hl => hline (hl ▸ line_of_event h)

/-! ## What the rules do to the token -/

section Rules

variable {l : Line}

theorem Token.enter (h : Token l φ .out w) :
    φ.next .call = some .called ∧ Token l .called .entered w := by
  cases h
  exact ⟨rfl, .entered⟩

theorem Token.leave {ret : ℤ} (h : Token l φ g w) (hret : g.Returns ret) (hg : g ≠ .out) :
    φ.next (.return ret) = some .idle ∧ Token l .idle .out w := by
  cases h with
  | out => exact absurd rfl hg
  | entered => exact ⟨if_pos hret, .out⟩
  | got => exact ⟨if_pos hret, .out⟩
  | accepted | flagged | unlocking | free | acquired => cases hret

theorem Token.start (h : Token l φ .entered w) :
    φ.next .accept = some .accepted ∧ Token { l with pending := true } .accepted .waiting w := by
  cases h
  exact ⟨rfl, .accepted (.inl rfl)⟩

theorem Token.syncLock (h : Token l φ .waiting w) (hfree : ¬ l.syncMtx = true) :
    Token { l with syncMtx := true } φ .acquired w := by
  cases h with
  | free => exact .acquired
  | accepted | flagged | unlocking => exact absurd rfl hfree

theorem Token.bytes (h : Token l φ .acquired w) : Token l φ (.got l.bytesTransfered) w := by
  cases h
  exact .got

theorem Token.completes {e : Completion} (h : Token l φ g .rest) (hpending : l.pending = true)
    (hpos : 0 < e.bytesRequested) : Token l φ g (.due e) := by
  cases h with
  | accepted => exact .accepted (.inr ⟨e, rfl, hpos⟩)
  | out | entered | flagged | free | acquired | got => cases hpending

theorem Token.callback {e : Completion} (h : Token l φ g (.due e)) :
    φ.next (.complete e.bytesTransfered) = some (.completed e.bytesTransfered) ∧
      Token (Line.callback
        { l with
          pending := false
          bytesRequested := e.bytesRequested
          bytesTransfered := e.bytesTransfered }) (.completed e.bytesTransfered) g .watch := by
  cases h with
  | accepted hw =>
      obtain hw | ⟨e', he, hpos⟩ := hw
      · cases hw
      · cases he
        rw [Line.callback, if_pos hpos]
        exact ⟨rfl, .flagged (.inl rfl)⟩
  | flagged hw => rcases hw with hw | hw <;> cases hw

theorem Token.tests (h : Token l φ g w) (hw : w = .rest ∨ w = .watch) :
    Token l φ g (if l.doRelease then .clearing else .rest) := by
  cases h with
  | flagged _ => exact .flagged (.inr rfl)
  | accepted _ => exact .accepted (.inl rfl)
  | unlocking => rcases hw with hw | hw <;> cases hw
  | out => exact .out
  | entered => exact .entered
  | free => exact .free
  | acquired => exact .acquired
  | got => exact .got

theorem Token.clears (h : Token l φ g .clearing) :
    Token { l with doRelease := false } φ g .unlocking := by
  cases h with
  | flagged _ => exact .unlocking
  | accepted hw => obtain hw | ⟨e, he, -⟩ := hw <;> contradiction

theorem Token.unlocks (h : Token l φ g .unlocking) :
    φ.next (.unlock l.syncMtx) = some (.released l.bytesTransfered) ∧
      Token { l with syncMtx := false } (.released l.bytesTransfered) g .rest := by
  cases h with
  | unlocking => exact ⟨rfl, .free⟩
  | accepted hw => obtain hw | ⟨e, he, -⟩ := hw <;> contradiction
  | flagged hw => rcases hw with hw | hw <;> cases hw

end Rules

/-- What a step of a thread does to a line: its events are in order, and the token is passed on. -/
def Passes (u : Fin 3) (c : Channel) (φ : Phase) (log : Log) (d' : Cdevs) (g' : Stage) (w' : Duty) :
    Prop :=
  ∃ φ', φ.after (log.on u c) = some φ' ∧ Token (d'.line u c) φ' g' w'

/-- A step that is no event of the line. -/
theorem Passes.silent {log : Log} (hlog : log.on u c = []) (h : Token (d'.line u c) φ g' w') :
    Passes u c φ log d' g' w' := by
  refine ⟨φ, ?_, h⟩
  rw [hlog]
  rfl

/-- A step that is an event of the line, and replaces the line. -/
theorem Passes.event {e : Event} {φ' : Phase} {l : Line} (hnext : φ.next e = some φ')
    (h : Token l φ' g' w') : Passes u c φ [((u, c), e)] (d.setLine u c l) g' w' := by
  refine ⟨φ', ?_, ?_⟩
  · rw [Log.on_singleton_self, Phase.after_singleton, hnext]
  · rwa [Cdevs.line_setLine_self]

theorem Token.away (h : Token (d.line u c) φ g w) (hexec : exec x o d = some (r, d'))
    (hline : o.line ≠ some (u, c)) : Passes u c φ (o.event r d).toList d' g w :=
  .silent (on_event hline) (line_exec hexec hline ▸ h)

/-- One operation of the thread of the client. -/
theorem Token.caller (h : Token (d.line u c) φ g w) (hrule : CallerRule u c g o r g')
    (hexec : exec x o d = some (r, d')) : Passes u c φ (o.event r d).toList d' g' w := by
  cases hrule with
  | away hline _ => exact h.away hexec hline
  | stateUnlock => exact h.away hexec (Op.line_ne rfl)
  | start nbytes ret =>
      simp only [exec] at hexec
      split at hexec <;> rename_i hret <;>
        obtain ⟨rfl, rfl⟩ := Prod.mk.inj (Option.some.inj hexec)
      · rw [if_pos hret, Op.event, if_pos hret]
        exact .event h.start.1 h.start.2
      · rw [if_neg hret, Op.event, if_neg hret]
        exact .silent rfl h
  | syncLock =>
      simp only [exec] at hexec
      split at hexec
      · cases hexec
      · rename_i hfree
        obtain ⟨-, rfl⟩ := Prod.mk.inj (Option.some.inj hexec)
        refine .silent rfl ?_
        rw [Cdevs.line_setLine_self]
        exact h.syncLock hfree
  | bytes bytes =>
      obtain ⟨rfl, rfl⟩ := Prod.mk.inj (Option.some.inj hexec)
      exact .silent rfl h.bytes

/-- One operation of the handler. -/
theorem Token.handler (h : Token (d.line u c) φ g w) (hrule : HandlerRule u c w o r w')
    (hexec : exec x o d = some (r, d'))
    (hx : ∀ e ∈ x.completions.list, 0 < e.bytesRequested) :
    Passes u c φ (o.event r d).toList d' g w' := by
  cases hrule with
  | away hline => exact h.away hexec hline
  | completes he hc =>
      simp only [exec] at hexec
      split at hexec
      · rename_i hpending
        obtain ⟨rfl, rfl⟩ := Prod.mk.inj (Option.some.inj hexec)
        exact .silent rfl (h.completes (hc ▸ hpending _ he) (hx _ he))
      · cases hexec
  | callback hc =>
      obtain rfl := hc
      obtain ⟨-, rfl⟩ := Prod.mk.inj (Option.some.inj hexec)
      exact .event h.callback.1 h.callback.2
  | tests hw =>
      obtain ⟨rfl, rfl⟩ := Prod.mk.inj (Option.some.inj hexec)
      exact .silent rfl (h.tests hw)
  | clears =>
      obtain ⟨-, rfl⟩ := Prod.mk.inj (Option.some.inj hexec)
      refine .silent rfl ?_
      rw [Cdevs.line_setLine_self]
      exact h.clears
  | unlocks =>
      obtain ⟨-, rfl⟩ := Prod.mk.inj (Option.some.inj hexec)
      exact .event h.unlocks.1 h.unlocks.2

/-- A caller that has been released does not have to wait. -/
theorem Token.isSome_exec {bytes : BitVec 32} (h : Token (d.line u c) (.released bytes) g w)
    (hrule : CallerRule u c g o r g') : (exec x o d).isSome := by
  generalize hl : d.line u c = l at h
  cases hrule with
  | away _ hg =>
      cases h <;> rcases hg with hg | hg <;> cases hg
  | start => cases h
  | stateUnlock | bytes => rfl
  | syncLock =>
      cases h
      simp only [exec, hl]
      rfl

theorem CallerRule.out_iff (h : CallerRule u c g o r g') : g' = .out ↔ g = .out := by
  cases h with
  | start nbytes ret =>
      split <;> simp
  | away => rfl
  | stateUnlock | syncLock | bytes => simp

end Steps

/-! ## Runs -/

namespace System

/-- What is known of the thread of the client. -/
def Caller (nvUartaAsync : ℤ) (u : Fin 3) (c : Channel) : Option (Call × Io ℤ) → Stage → Prop
  | none, g => g = .out
  | some (q, p), g => (g = .out ↔ q.target nvUartaAsync ≠ some (u, c)) ∧
      p.Follows (CallerRule u c) g fun ret g => g.Returns ret

/-- The invariant of a line. -/
structure Tracked (nvUartaAsync : ℤ) (s : System) (u : Fin 3) (c : Channel) (φ : Phase) (g : Stage)
    (w : Duty) : Prop where
  history : Phase.idle.after (s.log.on u c) = some φ
  token : Token (s.cdevs.line u c) φ g w
  caller : Caller nvUartaAsync u c s.rpc g
  handler : (s.handler u).Follows (HandlerRule u c) w fun _ w => w = .rest
  lines : ∀ u', (s.handler u').Every (Op.Within (·.1 = u'))

variable {nvUartaAsync : ℤ} {s s' : System} {a : Act} {u : Fin 3} {c : Channel} {φ : Phase}
  {g : Stage} {w : Duty}

theorem tracked_of_started (h : Started s) : Tracked nvUartaAsync s u c .idle .out .rest := by
  obtain ⟨x, buff, d, hrun, rfl⟩ := h
  obtain ⟨-, rfl⟩ := Prod.mk.inj (Option.some.inj hrun)
  refine ⟨rfl, ?_, rfl, rfl, fun _ => trivial⟩
  fin_cases u <;> cases c <;> exact .out

theorem within_update {f : Fin 3 → Io Unit} {u' : Fin 3} {p : Io Unit}
    (hf : ∀ v, (f v).Every (Op.Within (·.1 = v))) (hp : p.Every (Op.Within (·.1 = u')))
    (v : Fin 3) :
    (Function.update f u' p v).Every (Op.Within (·.1 = v)) :=
  (Function.forall_update_iff f fun v p => p.Every (Op.Within (·.1 = v))).2
    ⟨hp, fun v _ => hf v⟩ v

namespace Tracked

theorem call {q : Call} (h : Tracked nvUartaAsync s u c φ g w) (hidle : s.rpc = none) :
    ∃ φ' g', Tracked nvUartaAsync
      { s with
        rpc := some (q, q.body nvUartaAsync)
        log := s.log ++ q.event nvUartaAsync .call } u c φ' g' w := by
  obtain ⟨history, token, caller, handler, lines⟩ := h
  rw [hidle] at caller
  obtain rfl := caller
  have hbody := follows_body (u := u) (c := c) nvUartaAsync q
  by_cases ht : q.target nvUartaAsync = some (u, c)
  · rw [if_pos ht] at hbody
    obtain ⟨hnext, htoken⟩ := token.enter
    refine ⟨.called, .entered, ?_, htoken, ⟨?_, hbody⟩, handler, lines⟩
    · rw [Log.on_append, Phase.after_append history, Call.on_event_of_target _ ht]
      exact (Phase.after_singleton _ _).trans hnext
    · simp [ht]
  · rw [if_neg ht] at hbody
    refine ⟨φ, .out, ?_, token, ⟨?_, hbody⟩, handler, lines⟩
    · rw [Log.on_append, Phase.after_append history, Call.on_event_of_ne _ ht]
      exact Phase.after_nil φ
    · simp [ht]

theorem reply {q : Call} {ret : ℤ} (h : Tracked nvUartaAsync s u c φ g w)
    (hprog : s.rpc = some (q, .ret ret)) :
    ∃ φ' g', Tracked nvUartaAsync
      { s with rpc := none, log := s.log ++ q.event nvUartaAsync (.return ret) } u c φ' g' w := by
  obtain ⟨history, token, caller, handler, lines⟩ := h
  rw [hprog] at caller
  obtain ⟨hout, hret⟩ := caller
  by_cases ht : q.target nvUartaAsync = some (u, c)
  · obtain ⟨hnext, htoken⟩ := token.leave hret fun hg => hout.1 hg ht
    refine ⟨.idle, .out, ?_, htoken, rfl, handler, lines⟩
    rw [Log.on_append, Phase.after_append history, Call.on_event_of_target _ ht]
    exact (Phase.after_singleton _ _).trans hnext
  · refine ⟨φ, g, ?_, token, hout.2 ht, handler, lines⟩
    rw [Log.on_append, Phase.after_append history, Call.on_event_of_ne _ ht]
    exact Phase.after_nil φ

theorem rpc {x : Outcome} {q : Call} {o : Op} {k : Ans o → Io ℤ} {r : Ans o} {d : Cdevs}
    (h : Tracked nvUartaAsync s u c φ g w) (hprog : s.rpc = some (q, .call o k))
    (hexec : exec x o s.cdevs = some (r, d)) :
    ∃ φ' g', Tracked nvUartaAsync
      { s with rpc := some (q, k r), cdevs := d, log := s.log ++ (o.event r s.cdevs).toList }
      u c φ' g' w := by
  obtain ⟨history, token, caller, handler, lines⟩ := h
  rw [hprog] at caller
  obtain ⟨hout, hfollows⟩ := caller
  obtain ⟨g', hrule, hk⟩ := hfollows r
  obtain ⟨φ', hafter, htoken⟩ := token.caller hrule hexec
  refine ⟨φ', g', ?_, htoken, ⟨hrule.out_iff.trans hout, hk⟩, handler, lines⟩
  rw [Log.on_append, Phase.after_append history, hafter]

theorem irq {u' : Fin 3} (h : Tracked nvUartaAsync s u c φ g w) (hrest : s.handler u' = .ret ()) :
    Tracked nvUartaAsync
      { s with handler := Function.update s.handler u' (tk1UartIrqHandle u') } u c φ g w := by
  obtain ⟨history, token, caller, handler, lines⟩ := h
  refine ⟨history, token, caller, ?_,
    within_update lines (within_irqHandle (P := (·.1 = u')) fun _ => rfl)⟩
  dsimp only
  by_cases hu : u = u'
  · subst hu
    rw [hrest] at handler
    rw [Function.update_self, show w = .rest from handler]
    exact follows_irqHandle
  · rwa [Function.update_of_ne hu]

theorem handle {u' : Fin 3} {x : Outcome} {o : Op} {k : Ans o → Io Unit} {r : Ans o} {d : Cdevs}
    (h : Tracked nvUartaAsync s u c φ g w) (hprog : s.handler u' = .call o k)
    (hexec : exec x o s.cdevs = some (r, d))
    (hx : ∀ e ∈ x.completions.list, 0 < e.bytesRequested) :
    ∃ φ' w', Tracked nvUartaAsync
      { s with
        handler := Function.update s.handler u' (k r)
        cdevs := d
        log := s.log ++ (o.event r s.cdevs).toList } u c φ' g w' := by
  obtain ⟨history, token, caller, handler, lines⟩ := h
  have hwithin := lines u'
  rw [hprog] at hwithin
  have hlines := within_update lines (hwithin.2 r)
  by_cases hu : u = u'
  · subst hu
    rw [hprog] at handler
    obtain ⟨w', hrule, hk⟩ := handler r
    obtain ⟨φ', hafter, htoken⟩ := token.handler hrule hexec hx
    refine ⟨φ', w', ?_, htoken, caller, ?_, hlines⟩
    · rw [Log.on_append, Phase.after_append history, hafter]
    · dsimp only
      rwa [Function.update_self]
  · obtain ⟨φ', hafter, htoken⟩ := token.away hexec (hwithin.1.away hu)
    refine ⟨φ', w, ?_, htoken, caller, ?_, hlines⟩
    · rw [Log.on_append, Phase.after_append history, hafter]
    · dsimp only
      rwa [Function.update_of_ne hu]

theorem step (h : Tracked nvUartaAsync s u c φ g w) (hstep : Step nvUartaAsync s a () s') :
    ∃ φ' g' w', Tracked nvUartaAsync s' u c φ' g' w' := by
  obtain ⟨hstep, hadm⟩ := hstep
  cases moves_of_step hstep with
  | call q hidle =>
      obtain ⟨φ', g', h'⟩ := h.call hidle
      exact ⟨φ', g', w, h'⟩
  | rpc hprog hexec =>
      obtain ⟨φ', g', h'⟩ := h.rpc hprog hexec
      exact ⟨φ', g', w, h'⟩
  | reply hprog =>
      obtain ⟨φ', g', h'⟩ := h.reply hprog
      exact ⟨φ', g', w, h'⟩
  | irq hrest => exact ⟨φ, g, w, h.irq hrest⟩
  | handler hprog hexec =>
      obtain ⟨φ', w', h'⟩ := h.handle hprog hexec hadm
      exact ⟨φ', g, w', h'⟩

end Tracked

theorem tracked_of_reachable (h : Transition.Reachable (Step nvUartaAsync) Started s) (u : Fin 3)
    (c : Channel) : ∃ φ g w, Tracked nvUartaAsync s u c φ g w :=
  h.invariant (I := fun s => ∃ φ g w, Tracked nvUartaAsync s u c φ g w)
    (fun _ hs => ⟨_, _, _, tracked_of_started hs⟩)
    fun _ _ _ _ ⟨_, _, _, h⟩ hstep => h.step hstep

/-- The caller of a line is in its call, and can go on. -/
def Released (nvUartaAsync : ℤ) (s : System) (u : Fin 3) (c : Channel) : Prop :=
  ∃ q p, s.rpc = some (q, p) ∧ q.target nvUartaAsync = some (u, c) ∧
    ((∃ ret, p = .ret ret) ∨ ∀ x, (s.step nvUartaAsync (.rpc x)).isSome)

theorem Tracked.released {bytes : BitVec 32}
    (h : Tracked nvUartaAsync s u c (.released bytes) g w) : Released nvUartaAsync s u c := by
  obtain ⟨-, token, caller, -, -⟩ := h
  have hg : g ≠ .out := by
    rintro rfl
    cases hl : s.cdevs.line u c
    rw [hl] at token
    cases token
  cases hrpc : s.rpc with
  | none =>
      rw [hrpc] at caller
      exact absurd caller hg
  | some qp =>
      obtain ⟨q, p⟩ := qp
      rw [hrpc] at caller
      obtain ⟨hout, hfollows⟩ := caller
      refine ⟨q, p, hrpc, not_not.1 fun ht => hg (hout.2 ht), ?_⟩
      cases p with
      | ret ret => exact .inl ⟨ret, rfl⟩
      | call o k =>
          obtain ⟨r⟩ := nonempty_ans o
          obtain ⟨g', hrule, -⟩ := hfollows r
          refine .inr fun x => ?_
          have hexec := token.isSome_exec (x := x) hrule
          simp only [System.step, hrpc, Option.isSome_map, Prog.advance, record]
          exact hexec

theorem Tracked.not_completed (h : Tracked nvUartaAsync s u c φ g w) (hrest : s.handler u = .ret ())
    (bytes : BitVec 32) : φ ≠ .completed bytes := by
  obtain ⟨-, token, -, handler, -⟩ := h
  rw [hrest] at handler
  obtain rfl : w = .rest := handler
  rintro rfl
  generalize s.cdevs.line u c = l at token
  cases token with
  | flagged hw => rcases hw with hw | hw <;> cases hw

/-- The history of every line is a series of calls, each of which is refused, or returns the bytes
of its own request after the mutex has been unlocked for it, once and while it was held.  When the
handler does not run, no completed request waits for its release, and a caller that has been
released can go on. -/
theorem returns_on_completion (h : Transition.Reachable (Step nvUartaAsync) Started s) (u : Fin 3)
    (c : Channel) :
    ∃ φ, Phase.idle.after (s.log.on u c) = some φ ∧
      (s.handler u = .ret () → ∀ bytes, φ ≠ .completed bytes) ∧
      ∀ bytes, φ = .released bytes → Released nvUartaAsync s u c := by
  obtain ⟨φ, g, w, htracked⟩ := tracked_of_reachable h u c
  refine ⟨φ, htracked.history, htracked.not_completed, ?_⟩
  rintro bytes rfl
  exact htracked.released

/-- A device that is found, and a request of five bytes. -/
def fiveBytes : Outcome := ⟨true, 0, ⟨[⟨.write, 5, 5⟩], List.nodup_singleton _⟩⟩

/-- The first write to a UART, completed by one run of the handler while it waits. -/
def firstWrite (u : Fin 3) (x : Outcome) : List Act :=
  .call ⟨.write, u.val, 5⟩ :: List.replicate 7 (.rpc x) ++
    .irq u :: List.replicate 11 (.handler u x) ++ List.replicate 2 (.rpc x) ++ [.reply]

theorem run_firstWrite :
    ((tk1UartInit.run (exec fiveBytes) (cleared fun _ _ => true)).bind fun ud =>
      (firstWrite 0 fiveBytes).foldlM (fun s a => if Admissible a then s.step 0 a else none)
        (booted ud.2)).map (fun s => s.log.on 0 .write) =
    some [.call, .accept, .complete 5, .unlock true, .return 5] := rfl

theorem returns_on_completion_five :
    ∃ s : System, s.log.on 0 .write = [.call, .accept, .complete 5, .unlock true, .return 5] ∧
      ∃ φ, Phase.idle.after (s.log.on 0 .write) = some φ ∧
        (s.handler 0 = .ret () → ∀ bytes, φ ≠ .completed bytes) ∧
        ∀ bytes, φ = .released bytes → Released 0 s 0 .write := by
  obtain ⟨s, hrun, hlog⟩ := Option.map_eq_some_iff.1 run_firstWrite
  obtain ⟨ud, hinit, hrun⟩ := Option.bind_eq_some_iff.1 hrun
  have hreach : Transition.Reachable (Step 0) Started s :=
    .foldlM_of (fun _ _ _ hstep => ⟨(), step_of_ite hstep⟩) hrun
      (.of_init ⟨fiveBytes, fun _ _ => true, ud.2, hinit, rfl⟩)
  exact ⟨s, hlog, returns_on_completion hreach 0 .write⟩

end System

end Uart
end Tk1Bsp
