import Mathlib.Data.List.Sort
import Tk1Bsp.TimeServer.Timeliness

/-!
# The clients of the time server

Clients are told apart by badges, which start at one, and each waits on a notification of its own.
`seL4TimeServer-to.template.c` makes the table in which `the_timer_emit` finds the notification for
a badge, behind two asserts, and the largest badge, from which `post_init` takes the size of
`client_state`: there is an entry for each badge up to it, whether or not a client has this badge.

`Connected` is the server with its clients.  Here the interrupt handler goes on in steps: it takes
the mutex, and for each timer that is due it first signals the client, and then marks the timer as
completed.  A client can wake up in between.  It does not come too early, because its call of
`the_timer_completed` has to wait for the mutex (`Connected.no_lost_wakeup`).
-/

namespace Tk1Bsp
namespace TimeServer

open Transition

/-! ## Badges -/

/-- The badges of the clients that are connected. -/
structure Badges where
  list : List ℕ
  nonempty : list ≠ []
  pos : ∀ b ∈ list, 0 < b

namespace Badges

variable (bs : Badges)

/-- The badges after `badges.sort()`. -/
def sorted : List ℕ := bs.list.insertionSort (· ≤ ·)

theorem mem_sorted {b : ℕ} : b ∈ bs.sorted ↔ b ∈ bs.list := List.mem_insertionSort _

theorem sorted_ne_nil : bs.sorted ≠ [] := by
  obtain ⟨b, hb⟩ := List.exists_mem_of_ne_nil _ bs.nonempty
  exact List.ne_nil_of_mem (bs.mem_sorted.2 hb)

/-- `the_timer_largest_badge`. -/
def largestBadge : ℕ := bs.sorted.getLast bs.sorted_ne_nil

theorem le_largestBadge {b : ℕ} (hb : b ∈ bs.list) : b ≤ bs.largestBadge :=
  (List.pairwise_insertionSort (· ≤ ·) bs.list).rel_getLast (bs.mem_sorted.2 hb)

/-- The table of `the_timer_emit`: the notification for each badge. -/
def lookup : List (Option ℕ) :=
  (List.range (bs.largestBadge + 1)).map fun i => if i ∈ bs.sorted then some i else none

theorem getElem?_lookup {b : ℕ} (hb : b ∈ bs.list) : bs.lookup[b]? = some (some b) := by
  have hlt : b < bs.largestBadge + 1 := Nat.lt_succ_of_le (bs.le_largestBadge hb)
  rw [lookup, List.getElem?_map, List.getElem?_range hlt, Option.map_some,
    if_pos (bs.mem_sorted.2 hb)]

/-- `the_timer_emit`: signal the notification of a client. -/
def theTimerEmit (badge : ℕ) (pending : ℕ → Bool) : Except Fault (ℕ → Bool) :=
  match bs.lookup[badge]? with
  | none => .error .assertFailed
  | some none => .error .assertFailed
  | some (some b) => .ok (Function.update pending b true)

theorem theTimerEmit_eq {b : ℕ} (hb : b ∈ bs.list) (pending : ℕ → Bool) :
    bs.theTimerEmit b pending = .ok (Function.update pending b true) := by
  rw [theTimerEmit, bs.getElem?_lookup hb]

/-- A connected client. -/
abbrev Client := { b // b ∈ bs.list }

/-- `the_timer_get_sender_id() - 1`, an index of `client_state`. -/
def clientId (b : bs.Client) : Fin bs.largestBadge :=
  ⟨b.val - 1, by
    have := bs.pos b.val b.property
    have := bs.le_largestBadge b.property
    omega⟩

@[simp] theorem clientId_add_one (b : bs.Client) : (bs.clientId b).val + 1 = b.val :=
  Nat.sub_add_cancel (bs.pos b.val b.property)

end Badges

/-! ## The server with its clients -/

/-- Where the interrupt handler is. -/
inductive Place (nc nt : ℕ)
  | idle
  | looping
  | signalled (t : TimerRef nc nt)

/-- The handler has the mutex. -/
def Place.holds {nc nt : ℕ} : Place nc nt → Bool
  | idle => false
  | _ => true

/-- The server, the notifications, and for each badge if the client has been woken since it last
asked which of its timers have completed. -/
structure Connected (bs : Badges) (nt : ℕ) where
  server : Server bs.largestBadge nt
  place : Place bs.largestBadge nt
  pending : ℕ → Bool
  woken : ℕ → Bool

/-- What can happen: a call of a connected client, its waking up, or a step of the interrupt
handler. -/
inductive Action (bs : Badges)
  | call (b : bs.Client) (op : Call)
  | wake (b : bs.Client)
  | interrupt

namespace Connected

variable {bs : Badges} {nt : ℕ}

/-- A call.  It waits if it needs the mutex and the interrupt handler has it. -/
def call (s : Connected bs nt) (b : bs.Client) (op : Call) : Except Fault (Connected bs nt) := do
  let (_, server) ← s.server.serve (bs.clientId b) op
  return { s with
    server := server
    woken := if op = .completed then Function.update s.woken b false else s.woken }

/-- The client waits on its notification, and is woken. -/
def wake (s : Connected bs nt) (b : bs.Client) : Except Fault (Connected bs nt) :=
  if s.pending b then
    .ok { s with
      pending := Function.update s.pending b false
      woken := Function.update s.woken b true }
  else .error .blocked

/-- A step of `irq_handle`: enter, signal the client of the timer at the head of the list, go on
with this timer, or leave. -/
def interrupt (s : Connected bs nt) : Except Fault (Connected bs nt) :=
  match s.place with
  | .idle => do
      let server ← s.server.irqEnter
      return { s with server := server, place := .looping }
  | .looping =>
      match s.server.dueHead s.server.theCurrentTime with
      | none => .ok { s with server := s.server.timeServerUnlock, place := .idle }
      | some t => do
          let pending ← bs.theTimerEmit ((s.server.body t).clientId + 1) s.pending
          return { s with pending := pending, place := .signalled t }
  | .signalled t => do
      let (_, server) ← s.server.signalClient t s.server.theCurrentTime
      return { s with server := server, place := .looping }

/-- One step. -/
def step (s : Connected bs nt) : Action bs → Except Fault (Connected bs nt)
  | .call b op => s.call b op
  | .wake b => s.wake b
  | .interrupt => s.interrupt

/-- The step relation. -/
def Step (s : Connected bs nt) (a : Action bs) (_ : Unit) (s' : Connected bs nt) : Prop :=
  s.step a = .ok s'

/-- The start: the server has been initialised. -/
def Starts (s : Connected bs nt) : Prop :=
  s.server.Initial ∧ s.place = .idle ∧ (∀ b, s.pending b = false) ∧ ∀ b, s.woken b = false

/-! ## The invariant -/

/-- The client with a badge has been told, or has been woken since it last asked. -/
def Told (s : Connected bs nt) (b : ℕ) : Prop := s.pending b = true ∨ s.woken b = true

/-- Steps of the server and of its handler leave the clients as they are. -/
theorem Told.after {s : Connected bs nt} {b : ℕ} (h : s.Told b)
    (server : Server bs.largestBadge nt) (place : Place bs.largestBadge nt) :
    Told { s with server := server, place := place } b := h

/-- Who is newly signalled is a client with a timer that is due. -/
def Notifies (s s' : Connected bs nt) : Prop :=
  ∀ b, s'.pending b ≠ s.pending b →
    ∃ c : bs.Client, c.val = b ∧
      ∃ j, (s.server.bank.entry (bs.clientId c, j)).Due s.server.theCurrentTime

theorem Notifies.of_eq {s s' : Connected bs nt} (h : s'.pending = s.pending) : s.Notifies s' :=
  fun b hb => absurd (congrFun h b) hb

/-- The server works, only timers of connected clients are armed, and who has a completed timer has
been told. -/
structure Inv (s : Connected bs nt) : Prop where
  wellFormed : s.server.WellFormed
  held : s.server.timeServerHeld = s.place.holds
  connected : ∀ t, s.server.bank.entry t ≠ .off → t.1.val + 1 ∈ bs.list
  signalled : ∀ t, s.place = .signalled t → s.server.Armed t ∧ s.Told (t.1 + 1)
  told : ∀ c : Fin bs.largestBadge, s.server.completed c ≠ 0 → s.Told (c + 1)

/-! ## Calls while the handler has the mutex -/

theorem lock_of_held {nc : ℕ} {s : Server nc nt} (hheld : s.timeServerHeld = true) :
    s.timeServerLock = .error .blocked := if_pos hheld

/-- Only calls that do not need the mutex return, and they change nothing. -/
theorem serve_of_held {nc : ℕ} {s s' : Server nc nt} (hheld : s.timeServerHeld = true)
    {cid : Fin nc} {op : Call} {o : Output nc nt} (h : s.serve cid op = .ok (o, s')) :
    s' = s ∧ op ≠ .completed := by
  have hlock := lock_of_held hheld
  have harm : ∀ {tid set r s₁}, s.arm cid tid set = .ok (r, s₁) → s₁ = s := by
    intro tid set r s₁ h
    unfold Server.arm at h
    split at h
    · cases h
      rfl
    · rw [hlock] at h
      cases h
  have hstop : ∀ {tid r s₁}, s.stop cid tid = .ok (r, s₁) → s₁ = s := by
    intro tid r s₁ h
    unfold Server.stop at h
    split at h
    · cases h
      rfl
    · rw [hlock] at h
      cases h
  have hwrap : ∀ {r : Except Fault (ℤ × Server nc nt)}, (∀ v s₁, r = .ok (v, s₁) → s₁ = s) →
      (do let (v, s) ← r; return (Output.ret v, s) : Except Fault _) = .ok (o, s') → s' = s := by
    intro r hr h
    cases r with
    | error f => cases h
    | ok vs =>
        cases h
        exact hr _ _ rfl
  cases op with
  | oneshotRelative tid ns | oneshotAbsolute tid ns | periodic tid ns =>
      exact ⟨hwrap (fun _ _ => harm) h, by rintro ⟨⟩⟩
  | stop tid => exact ⟨hwrap (fun _ _ => hstop) h, by rintro ⟨⟩⟩
  | completed =>
      simp only [Server.serve, Server.takeCompleted, hlock] at h
      cases h
  | time | tscFrequency =>
      cases h
      exact ⟨rfl, by rintro ⟨⟩⟩

/-! ## Calls of one client -/

theorem completed_serve {nc : ℕ} {b : Bank nc nt} {cid : Fin nc} {op : Call} (h : op ≠ .completed) :
    (b.serve cid op).2.completed = b.completed := by
  have hwrite : ∀ tid e, (b.write cid tid e).2.completed = b.completed := by
    intro tid e
    unfold Bank.write
    cases timerIndex nt tid <;> rfl
  cases op with
  | completed => exact absurd rfl h
  | oneshotRelative | oneshotAbsolute | periodic | stop => exact hwrite ..
  | time | tscFrequency => rfl

/-- A call changes no timer of another client. -/
theorem entry_serve_of_ne {nc : ℕ} {b : Bank nc nt} {cid : Fin nc} {op : Call} {t : TimerRef nc nt}
    (h : t.1 ≠ cid) : (b.serve cid op).2.entry t = b.entry t := by
  refine Bank.entry_serve_of_not_sets ?_
  rintro ⟨tid, -, j, -, rfl⟩
  exact h rfl

namespace Inv

variable {s s' : Connected bs nt}

theorem starts (h : s.Starts) : s.Inv := by
  obtain ⟨hinit, hplace, -, -⟩ := h
  have hrest := Server.atRest_of_initial hinit
  have hbank := Server.bank_of_initial hinit
  refine ⟨hrest.wellFormed, ?_, fun t ht => ?_, fun t ht => ?_, fun c hc => ?_⟩
  · rw [hrest.free, hplace]
    rfl
  · rw [hbank] at ht
    exact absurd rfl ht
  · rw [hplace] at ht
    cases ht
  · have hzero : s.server.completed c = 0 := congrFun (congrArg Bank.completed hbank) c
    exact absurd hzero hc

theorem call (h : s.Inv) {b : bs.Client} {op : Call} (hs : s.call b op = .ok s') : s'.Inv := by
  unfold Connected.call at hs
  cases hserve : s.server.serve (bs.clientId b) op with
  | error f =>
      rw [hserve] at hs
      cases hs
  | ok os =>
      obtain ⟨o, server⟩ := os
      rw [hserve] at hs
      cases hs
      cases hholds : s.place.holds with
      | true =>
          obtain ⟨rfl, hop⟩ := serve_of_held (h.held.trans hholds) hserve
          simp only [if_neg hop]
          exact h
      | false =>
          obtain ⟨o', server', hok, hwf, hfree, hbank⟩ :=
            Server.serve_refines h.wellFormed (h.held.trans hholds) (bs.clientId b) op
          cases hok.symm.trans hserve
          have hentry : server.bank = (s.server.bank.serve (bs.clientId b) op).2 :=
            congrArg Prod.snd hbank
          refine ⟨hwf, hfree.trans hholds.symm, fun t ht => ?_, fun t ht => ?_, fun c hc => ?_⟩
          · by_cases hown : t.1 = bs.clientId b
            · rw [hown, bs.clientId_add_one]
              exact b.property
            · have ht : server.bank.entry t ≠ .off := ht
              rw [hentry, entry_serve_of_ne hown] at ht
              exact h.connected t ht
          · have ht : s.place = .signalled t := ht
            rw [ht] at hholds
            cases hholds
          · have hc : server.bank.completed c ≠ 0 := hc
            rw [hentry] at hc
            by_cases hop : op = .completed
            · subst hop
              by_cases hown : c = bs.clientId b
              · subst hown
                exact absurd (Function.update_self ..) hc
              · have hc : s.server.bank.completed c ≠ 0 := fun hzero =>
                  hc ((Function.update_of_ne hown ..).trans hzero)
                refine (h.told c hc).imp id fun hwoken => ?_
                have hne : c.val + 1 ≠ b.val := by
                  rw [← bs.clientId_add_one b]
                  exact fun heq => hown (Fin.ext (Nat.succ.inj heq))
                exact (Function.update_of_ne hne ..).trans hwoken
            · rw [completed_serve hop] at hc
              simp only [Told, if_neg hop]
              exact h.told c hc

/-- Waking up moves the notice from the notification to the client. -/
theorem told_wake {b : bs.Client} {c : ℕ} (h : s.Told c) :
    Told { s with
      pending := Function.update s.pending b false
      woken := Function.update s.woken b true } c := by
  by_cases hc : c = b.val
  · exact .inr (hc ▸ Function.update_self ..)
  · exact h.imp (Function.update_of_ne hc ..).trans (Function.update_of_ne hc ..).trans

theorem wake (h : s.Inv) {b : bs.Client} (hs : s.wake b = .ok s') : s'.Inv := by
  unfold Connected.wake at hs
  split at hs
  · cases hs
    exact ⟨h.wellFormed, h.held, h.connected,
      fun t ht => ⟨(h.signalled t ht).1, told_wake (h.signalled t ht).2⟩,
      fun c hc => told_wake (h.told c hc)⟩
  · cases hs

/-- The interrupt handler can always go on, and signals whom it should. -/
theorem interrupt (h : s.Inv) : ∃ s', s.interrupt = .ok s' ∧ s'.Inv ∧ s.Notifies s' := by
  cases hplace : s.place with
  | idle =>
      have hrest : s.server.AtRest := ⟨h.wellFormed, h.held.trans (congrArg Place.holds hplace)⟩
      refine ⟨{ s with server := s.server.entered, place := .looping }, ?_, ?_, .of_eq rfl⟩
      · simp only [Connected.interrupt, hplace, hrest.irqEnter]
        rfl
      · refine ⟨hrest.entered, rfl, fun t ht => ?_, nofun, fun c hc => ?_⟩
        · have ht : s.server.entered.bank.entry t ≠ .off := ht
          rw [Server.bank_entered] at ht
          exact h.connected t ht
        · have hc : s.server.entered.bank.completed c ≠ 0 := hc
          rw [Server.bank_entered] at hc
          exact (h.told c hc).after s.server.entered .looping
  | looping =>
      cases hdue : s.server.dueHead s.server.theCurrentTime with
      | none =>
          refine ⟨{ s with server := s.server.timeServerUnlock, place := .idle }, ?_, ?_,
            .of_eq rfl⟩
          · simp only [Connected.interrupt, hplace, hdue]
          · exact ⟨h.wellFormed.congr rfl rfl, rfl, h.connected, nofun, h.told⟩
      | some t =>
          obtain ⟨harmed, hisDue⟩ := h.wellFormed.due_of_dueHead hdue
          have hmem := h.connected t (Server.armed_iff.1 harmed)
          have hown : (s.server.body t).clientId = t.1 := (h.wellFormed.labels t).1
          have hheld : s.server.timeServerHeld = true :=
            h.held.trans (congrArg Place.holds hplace)
          let s' : Connected bs nt := { s with
            pending := Function.update s.pending (t.1.val + 1) true
            place := .signalled t }
          have htold : ∀ c, s.Told c → s'.Told c := by
            intro c hc
            by_cases hct : c = t.1.val + 1
            · exact .inl (hct ▸ Function.update_self ..)
            · exact hc.imp_left (Function.update_of_ne hct ..).trans
          refine ⟨s', ?_, ⟨h.wellFormed, hheld, h.connected, fun t' ht' => ?_,
            fun c hc => htold _ (h.told c hc)⟩, fun b hb => ?_⟩
          · simp only [Connected.interrupt, hplace, hdue, hown, bs.theTimerEmit_eq hmem]
            rfl
          · cases ht'
            exact ⟨harmed, .inl (Function.update_self ..)⟩
          · have heq : b = t.1.val + 1 := by
              by_contra hne
              exact hb (Function.update_of_ne hne ..)
            refine ⟨⟨b, heq ▸ hmem⟩, rfl, t.2, ?_⟩
            have hid : bs.clientId ⟨b, heq ▸ hmem⟩ = t.1 := Fin.ext (by simp [Badges.clientId, heq])
            rwa [hid]
  | signalled t =>
      obtain ⟨harmed, htold⟩ := h.signalled t hplace
      obtain ⟨server, hok, hwf, hentry, hcompleted, -, hheld⟩ :=
        h.wellFormed.signalClient harmed s.server.theCurrentTime
      refine ⟨{ s with server := server, place := .looping }, ?_,
        ⟨hwf, ?_, fun t' ht' => ?_, nofun, fun c hc => ?_⟩, .of_eq rfl⟩
      · simp only [Connected.interrupt, hplace, hok]
        rfl
      · rw [hheld, h.held, hplace]
        rfl
      · by_cases heq : t' = t
        · exact heq ▸ h.connected t (Server.armed_iff.1 harmed)
        · have ht' : server.bank.entry t' ≠ .off := ht'
          rw [hentry, Function.update_of_ne heq] at ht'
          exact h.connected t' ht'
      · have hc : server.bank.completed c ≠ 0 := hc
        by_cases heq : c = t.1
        · exact heq ▸ htold
        · rw [hcompleted, Function.update_of_ne heq] at hc
          exact h.told c hc

theorem step (h : s.Inv) {a : Action bs} (hs : s.step a = .ok s') : s'.Inv := by
  cases a with
  | call b op => exact h.call hs
  | wake b => exact h.wake hs
  | interrupt =>
      obtain ⟨s₁, hok, hinv, -⟩ := h.interrupt
      cases hok.symm.trans hs
      exact hinv

end Inv

theorem inv_of_reachable {s : Connected bs nt} (h : Reachable Step Starts s) : s.Inv :=
  h.invariant (fun _ => Inv.starts) fun _ _ _ _ hinv hs => hinv.step hs

/-- Whatever badges the clients have, and whatever they call, the interrupt handler never fails an
assert: not those of the table of notifications, nor those of the list of timers.  Nor does it wait.
And it signals only clients with a timer that is due. -/
theorem interrupt_goes_on {s : Connected bs nt} (h : Reachable Step Starts s) :
    ∃ s', s.step .interrupt = .ok s' ∧ s.Notifies s' := by
  obtain ⟨s', hok, -, hnotifies⟩ := (inv_of_reachable h).interrupt
  exact ⟨s', hok, hnotifies⟩

section Sparse

/-- Two clients, with badges that are neither in order nor next to each other. -/
def sparse : Badges := ⟨[10, 7], by decide, by decide⟩

def seven : sparse.Client := ⟨7, by decide⟩

/-- The server of these clients when it has been initialised. -/
def sparseStart : Connected sparse 1 :=
  ⟨Server.postInit (fun k => k) 0, .idle, fun _ => false, fun _ => false⟩

theorem starts_sparseStart : sparseStart.Starts :=
  ⟨⟨fun k => k, 0, rfl⟩, rfl, fun _ => rfl, fun _ => rfl⟩

/-- What is computed from the start is reachable. -/
theorem reachable_sparse {as : List (Action sparse)} {s : Connected sparse 1}
    (h : as.foldlM (fun s a => (step s a).toOption) sparseStart = some s) :
    Reachable Step Starts s := by
  refine Reachable.foldlM_of (fun s a s' hstep => ⟨(), ?_⟩) h (.of_init starts_sparseStart)
  cases hok : step s a with
  | error f =>
      rw [hok] at hstep
      cases hstep
  | ok s₁ =>
      rw [hok] at hstep
      cases hstep
      exact hok

/-- A state of the test is found by running it. -/
theorem exists_of_any (as : List (Action sparse)) (p : Connected sparse 1 → Bool)
    (h : (as.foldlM (fun s a => (step s a).toOption) sparseStart).any p = true) :
    ∃ s, Reachable Step Starts s ∧ p s = true := by
  obtain ⟨s, hs, hp⟩ := (Option.any_eq_true _ _).1 h
  exact ⟨s, reachable_sparse hs, hp⟩

/-- The handler goes on to signal the client with badge seven, whose timer is due. -/
theorem interrupt_goes_on_sparse :
    ∃ s : Connected sparse 1, Reachable Step Starts s ∧
      ∃ s', s.step .interrupt = .ok s' ∧ s'.pending 7 = true ∧ s.Notifies s' := by
  obtain ⟨s, hs, hnext⟩ := exists_of_any
    [.call seven (.oneshotRelative 0 0), .interrupt]
    (fun s => (s.step .interrupt).toOption.any fun s' => s'.pending 7) (by decide +kernel)
  obtain ⟨s', hok, hnotifies⟩ := interrupt_goes_on hs
  rw [hok] at hnext
  exact ⟨s, hs, s', hok, hnext, hnotifies⟩

end Sparse

/-- A client with a completed timer has a notification pending, or has been woken since it last
asked which of its timers have completed. -/
theorem no_lost_wakeup {s : Connected bs nt} (h : Reachable Step Starts s) (b : bs.Client)
    (hc : s.server.completed (bs.clientId b) ≠ 0) : s.pending b = true ∨ s.woken b = true := by
  have htold := (inv_of_reachable h).told _ hc
  rwa [bs.clientId_add_one] at htold

/-- The client wakes up before its timer is marked as completed. -/
theorem no_lost_wakeup_early :
    ∃ s : Connected sparse 1, s.server.completed (sparse.clientId seven) = 1#32 ∧
      s.pending 7 = false ∧ (s.pending 7 = true ∨ s.woken 7 = true) := by
  obtain ⟨s, hs, hstate⟩ := exists_of_any
    [.call seven (.oneshotRelative 0 0), .interrupt, .interrupt, .wake seven, .interrupt]
    (fun s => s.server.completed (sparse.clientId seven) == 1#32 && !s.pending 7)
    (by decide +kernel)
  rw [Bool.and_eq_true, beq_iff_eq, Bool.not_eq_true'] at hstate
  obtain ⟨hcompleted, hpending⟩ := hstate
  have hne : s.server.completed (sparse.clientId seven) ≠ 0 := by
    rw [hcompleted]
    decide
  exact ⟨s, hcompleted, hpending, no_lost_wakeup hs seven hne⟩

end Connected
end TimeServer
end Tk1Bsp
