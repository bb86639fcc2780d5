import Mathlib.Data.Set.Basic
import Tk1Bsp.Can.Lengths

/-!
# Who owns a transmit buffer

A transmit buffer should be loaded only when nothing that waits to be sent is in it.  Between a test
and the load that relies on it, the right to load a buffer is with someone: with its flag, with the
handler that has cleared the flag, or with a `can_sendto` that has found the buffer idle; and what
has been loaded is with the one who loaded it until it is requested, and with the request until it
has been sent.  While there is one owner at a time (`Exclusive`), no frame is overwritten.

The source hands out the right twice: `start_xmit` raises the flag of a buffer it only saw idle,
and `can_sendto` does not look at the flag.  The wait for `TXREQ` in `transmit_message` that should
save the frame reads another register.  `System.Careful` is the condition on single steps under
which every run keeps one owner for each buffer.
-/

namespace Tk1Bsp
namespace Can

open Prog

/-! ## Owners -/

/-- Who may load a buffer, or has what is in it. -/
inductive Owner
  | nobody
  | flag
  | request
  | handler
  | handlerLoaded
  | client
  | clientLoaded

/-- The owner of a buffer, in terms of what is known about it: its flag, its request, that the
handler may load it or has loaded it, that the client may load it or has loaded it, and that there
is a frame in it which has not been sent. -/
structure Exclusive (x : Owner) (flag request hand out aim own held : Prop) : Prop where
  flag : flag → x = .flag
  request : request → x = .request
  hand : hand → x = .handler
  out : out → x = .handlerLoaded ∧ held
  aim : aim → x = .client
  own : own → x = .clientLoaded
  held : held → x = .request ∨ x = .handlerLoaded ∨ x = .clientLoaded

/-- A buffer has an owner. -/
def Owned (flag request hand out aim own held : Prop) : Prop :=
  ∃ x, Exclusive x flag request hand out aim own held

namespace Owned

variable {flag request hand out aim own held : Prop}

theorem mono {flag' request' hand' out' aim' own' held' : Prop}
    (h : Owned flag request hand out aim own held) (hflag : flag' → flag)
    (hrequest : request' → request) (hhand : hand' → hand) (hout : out' → out)
    (haim : aim' → aim) (hown : own' → own) (hheld : held' ↔ held) :
    Owned flag' request' hand' out' aim' own' held' := by
  obtain ⟨x, h⟩ := h
  refine ⟨x, fun hf => h.flag (hflag hf), fun hr => h.request (hrequest hr),
    fun hh => h.hand (hhand hh), fun ho => ?_, fun ha => h.aim (haim ha),
    fun ho => h.own (hown ho), fun hh => h.held (hheld.1 hh)⟩
  exact ⟨(h.out (hout ho)).1, hheld.2 (h.out (hout ho)).2⟩

/-- The handler clears the flag, and may load. -/
theorem take (h : Owned flag request hand out aim own held) (hflag : flag) :
    Owned False request True out aim own held := by
  obtain ⟨x, hx, hrequest, hhand, hout, haim, hown, hheld⟩ := h
  obtain rfl := hx hflag
  exact ⟨.handler, by constructor <;> simp_all⟩

/-- The handler loads. -/
theorem load (h : Owned flag request hand out aim own held) (hhand : hand) :
    Owned flag request False True aim own True := by
  obtain ⟨x, hflag, hrequest, hx, hout, haim, hown, hheld⟩ := h
  obtain rfl := hx hhand
  exact ⟨.handlerLoaded, by constructor <;> simp_all⟩

/-- The handler requests what it has loaded. -/
theorem requested (h : Owned flag request hand out aim own held) (hout : out) :
    Owned flag True hand False aim own held := by
  obtain ⟨x, hflag, hrequest, hhand, hx, haim, hown, hheld⟩ := h
  obtain rfl := (hx hout).1
  exact ⟨.request, by constructor <;> simp_all⟩

/-- The frame has been sent. -/
theorem sent (h : Owned flag request hand out aim own held) (hrequest : request) :
    Owned True False hand out aim own False := by
  obtain ⟨x, hflag, hx, hhand, hout, haim, hown, hheld⟩ := h
  obtain rfl := hx hrequest
  exact ⟨.flag, by constructor <;> simp_all⟩

/-- The client finds a buffer that nobody owns, and may load. -/
theorem aimed (h : Owned flag request hand out aim own held) (hflag : ¬ flag)
    (hrequest : ¬ request) (hhand : ¬ hand) (hown : ¬ own) (hheld : ¬ held) :
    Owned flag request hand out True own held := by
  obtain ⟨x, -, -, -, hout, -, -, -⟩ := h
  exact ⟨.client, by constructor <;> simp_all⟩

/-- The client loads. -/
theorem loadByClient (h : Owned flag request hand out aim own held) (haim : aim) :
    Owned flag request hand out False True True := by
  obtain ⟨x, hflag, hrequest, hhand, hout, hx, hown, hheld⟩ := h
  obtain rfl := hx haim
  exact ⟨.clientLoaded, by constructor <;> simp_all⟩

/-- The client requests what it has loaded. -/
theorem requestByClient (h : Owned flag request hand out aim own held) (hown : own) :
    Owned flag True hand out aim False held := by
  obtain ⟨x, hflag, hrequest, hhand, hout, haim, hx, hheld⟩ := h
  obtain rfl := hx hown
  exact ⟨.request, by constructor <;> simp_all⟩

/-- The client raises the flag of a buffer that nobody owns. -/
theorem raise (h : Owned flag request hand out aim own held) (hrequest : ¬ request)
    (hhand : ¬ hand) (haim : ¬ aim) (hown : ¬ own) (hheld : ¬ held) :
    Owned True request hand out aim own held := by
  obtain ⟨x, -, -, -, hout, -, -, -⟩ := h
  exact ⟨.flag, by constructor <;> simp_all⟩

/-- A buffer that may be loaded is not requested, and has no frame in it. -/
theorem free (h : Owned flag request hand out aim own held) (hload : hand ∨ aim) :
    ¬ request ∧ ¬ held := by
  obtain ⟨x, -, hrequest, hhand, -, haim, -, hheld⟩ := h
  rcases hload with hload | hload
  · obtain rfl := hhand hload
    simp_all
  · obtain rfl := haim hload
    simp_all

end Owned

/-! ## Protocols of the two threads -/

/-- The transmit flags that an operation clears. -/
def Op.cleared : Op → BitVec 8
  | .spi [0x05, reg, mask, val] _ => if reg = canintf then mask &&& ~~~val else 0
  | _ => 0

/-- The operation clears the flag of buffer `i`. -/
def Op.Clears (i : Fin 3) (o : Op) : Prop := o.cleared.getLsbD (i + 2) = true

/-- The operation loads buffer `i`. -/
def Op.Loads (i : Fin 3) (o : Op) : Prop := ∃ buf, o.load = some (i, buf)

/-- The operation is no SPI transaction. -/
def Op.Offline : Op → Prop
  | .spi _ _ => False
  | _ => True

/-- What the handler knows and has: the flags it has seen, the buffers it may load, and those it has
loaded and not requested. -/
structure Grip where
  noticed : Set (Fin 3)
  hand : Set (Fin 3)
  out : Set (Fin 3)

/-- The protocol of the handler. -/
inductive Handles : Grip → (o : Op) → Ans o → Grip → Prop
  | plain {g : Grip} {o : Op} {r : Ans o} (h : o.Plain ∨ o.Offline) : Handles g o r g
  | notice {g : Grip} (r : List (BitVec 8)) :
      Handles g (.spi [0x03, canintf] 1) r ⟨{i | (r.headD 0).getLsbD (i + 2)}, ∅, ∅⟩
  | take {g : Grip} (mask : BitVec 8) (r : List (BitVec 8))
      (h : ∀ i : Fin 3, mask.getLsbD (i + 2) → i ∈ g.noticed) :
      Handles g (.spi [0x05, canintf, mask, 0] 0) r ⟨∅, {i | mask.getLsbD (i + 2)}, ∅⟩
  | load {g : Grip} (i : Fin 3) (buf r : List (BitVec 8)) (hbuf : buf.length ≤ 13)
      (h : i ∈ g.hand) :
      Handles g (loadOp i buf) r ⟨g.noticed, g.hand \ {i}, insert i g.out⟩
  | request {g : Grip} (mask : BitVec 8) (r : List (BitVec 8)) (hmask : mask &&& 0xF8 = 0)
      (h : ∀ i : Fin 3, mask.getLsbD i → i ∈ g.out) :
      Handles g (.spi [0x80 ||| mask] 0) r ⟨g.noticed, g.hand, ∅⟩

/-- Where the client is in a call: at the start of `can_sendto`, between finding a buffer idle and
loading it, between that and the request, or anywhere else. -/
inductive Aim
  | idle
  | direct
  | aiming (i : Fin 3)
  | loaded (i : Fin 3)

/-- The operation with which `txb_status` reads the state of a buffer. -/
def statusOp (i : Fin 3) : Op := .spi [0x03, txbctrl i] 1

/-- The operation with which `start_xmit` raises the flag of a buffer. -/
def raiseOp (i : Fin 3) : Op := .spi [0x05, canintf, canintfTx0if <<< i.val, 0xFF] 0

/-- The protocol of the client. -/
inductive Directs : Aim → (o : Op) → Ans o → Aim → Prop
  | plain {g : Aim} {o : Op} {r : Ans o} (h : o.Plain ∨ o.Offline) : Directs g o r g
  | aim (i : Fin 3) (r : List (BitVec 8)) (h : r.headD 0 &&& txbctrlTxreq = 0) :
      Directs .direct (statusOp i) r (.aiming i)
  | load (i : Fin 3) (buf r : List (BitVec 8)) (hbuf : buf.length ≤ 13) :
      Directs (.aiming i) (loadOp i buf) r (.loaded i)
  | request (i : Fin 3) (r : List (BitVec 8)) :
      Directs (.loaded i) (.spi [0x80 ||| 1#8 <<< i.val] 0) r .idle
  | raise (i : Fin 3) (r : List (BitVec 8)) : Directs .idle (raiseOp i) r .idle

/-! ## What the operations load and clear -/

@[simp] theorem load_loadOp (i : Fin 3) (buf : List (BitVec 8)) :
    (loadOp i buf).load = some (i, buf) := by
  fin_cases i <;> rfl

theorem load_of_plain {o : Op} (h : o.Plain ∨ o.Offline) : o.load = none := by
  rcases h with h | h
  · cases h <;> rfl
  · cases o <;> first | rfl | exact h.elim

theorem load_of_rts (mask : BitVec 8) : (Op.spi [0x80 ||| mask] 0).load = none := by
  have hbit : (0x80 ||| mask).getLsbD 7 = true := by simp
  unfold Op.load
  split <;> first | rfl | skip
  all_goals
    rename_i heq
    simp only [Op.spi.injEq, List.cons.injEq] at heq
    rw [heq.1.1] at hbit
    exact absurd hbit (by decide)

theorem cleared_of_plain {o : Op} (h : o.Plain ∨ o.Offline) (i : Fin 3) : ¬ o.Clears i := by
  rcases h with h | h
  · cases h with
    | flags mask hmask =>
        have hbit : (mask &&& txifMask).getLsbD (i + 2) = false := by rw [hmask]; simp
        have htx : ∀ i : Fin 3, txifMask.getLsbD (i + 2) = true := by decide
        rw [BitVec.getLsbD_and, htx i, Bool.and_true] at hbit
        simp [Op.Clears, Op.cleared, hbit]
    | priority j val =>
        have hne : txbctrl j ≠ canintf := by revert j; decide
        simp [Op.Clears, Op.cleared, hne]
    | _ => simp [Op.Clears, Op.cleared, canctrl, canintf, eflg]
  · cases o <;> first | exact h.elim | simp [Op.Clears, Op.cleared]

theorem clears_clear_iff (mask : BitVec 8) (i : Fin 3) :
    (Op.spi [0x05, canintf, mask, 0] 0).Clears i ↔ mask.getLsbD (i + 2) = true := by
  have hall : mask &&& ~~~(0 : BitVec 8) = mask := BitVec.and_allOnes
  show (mask &&& ~~~(0 : BitVec 8)).getLsbD (i + 2) = true ↔ _
  rw [hall]

theorem not_clears_of_load {o : Op} (h : o.load ≠ none) (i : Fin 3) : ¬ o.Clears i := by
  unfold Op.Clears Op.cleared
  split
  · exact absurd rfl h
  · simp

/-! ## The invariant -/

/-- The handler may load buffer `i` before it clears its flag again. -/
def System.MayLoad (s : System) (i : Fin 3) : Prop := ¬ s.handler.Guarded (Op.Clears i) (Op.Loads i)

/-- Nothing is in buffer `i`, and nobody is about to load it. -/
structure System.Free (s : System) (i : Fin 3) : Prop where
  flagged : s.driver.chip.flagged i = false
  requested : s.driver.chip.requested i = false
  loaded : s.history.loaded i = none
  guarded : s.handler.Guarded (Op.Clears i) (Op.Loads i)

/-- The condition on a step: `start_xmit` raises a flag only if it is set already or the buffer is
free, and `can_sendto` finds a buffer requested or free. -/
def System.Careful (s : System) (a : Act) : Prop :=
  a = .client → ∀ c o k, s.client = some (c, .call o k) → ∀ i,
    (o = raiseOp i → s.driver.chip.flagged i = true ∨ s.Free i) ∧
      (o = statusOp i → (∃ txbIdx frame, c = .sendto txbIdx frame) →
        s.driver.chip.requested i = true ∨ s.Free i)

/-- Every buffer has one owner, the handler has seen no flag that is not set, and what is in the
buffers is what was loaded. -/
structure Ruled (gc : Aim) (gh : Grip) (s : System) : Prop where
  owned : ∀ i, Owned (s.driver.chip.flagged i = true) (s.driver.chip.requested i = true)
    (s.MayLoad i) (i ∈ gh.out) (gc = .aiming i) (gc = .loaded i) (s.history.loaded i ≠ none)
  noticed : ∀ i ∈ gh.noticed, s.driver.chip.flagged i = true
  bytes : ∀ i buf, s.history.loaded i = some buf →
    buf.length ≤ 13 ∧ ∀ k < buf.length, s.driver.chip.txb i k = buf.getD k 0
  direct : gc = .direct → ∃ txbIdx frame p, s.client = some (.sendto txbIdx frame, p)

/-- A handler that has no buffer in hand clears a flag before it loads. -/
theorem guarded_of_handles {p : Io Unit} {g : Grip} {Q : Unit → Grip → Prop}
    (h : p.Follows Handles g Q) {i : Fin 3} (hi : i ∉ g.hand) :
    p.Guarded (Op.Clears i) (Op.Loads i) := by
  have hans : ∀ o : Op, o.Loads i → Nonempty (Ans o) := by
    rintro o ⟨buf, hload⟩
    cases o <;> first | exact ⟨[]⟩ | cases hload
  have hnext : ∀ g o r g', Handles g o r g' → i ∉ g.hand → ¬ o.Clears i →
      ¬ o.Loads i ∧ i ∉ g'.hand := by
    intro g o r g' hnext hclosed hclears
    cases hnext with
    | plain h =>
        refine ⟨fun ⟨buf, hload⟩ => ?_, hclosed⟩
        rw [load_of_plain h] at hload
        cases hload
    | notice r => exact ⟨fun ⟨buf, hload⟩ => (by cases hload), Set.notMem_empty i⟩
    | take mask r h =>
        refine ⟨fun ⟨buf, hload⟩ => (by cases hload), fun hmem => hclears ?_⟩
        exact (clears_clear_iff mask i).2 hmem
    | load j buf r hbuf hj =>
        refine ⟨fun ⟨buf', hload⟩ => ?_, fun hmem => hclosed hmem.1⟩
        rw [load_loadOp] at hload
        cases hload
        exact hclosed hj
    | request mask r hmask h =>
        refine ⟨fun ⟨buf, hload⟩ => ?_, hclosed⟩
        rw [load_of_rts] at hload
        cases hload
  exact h.guarded hans hnext hi

/-- An operation that is not the clearing of its flag gives the handler no right to a buffer. -/
theorem mayLoad_of_call {o : Op} {k : Ans o → Io Unit} {r : Ans o} {i : Fin 3}
    (hclears : ¬ o.Clears i) (h : ¬ (k r).Guarded (Op.Clears i) (Op.Loads i)) :
    ¬ (Prog.call o k).Guarded (Op.Clears i) (Op.Loads i) :=
  fun hc => h (hc.call hclears r)

theorem loaded_record_of_none {h : History} {o : Op} (ho : o.load = none) :
    (h.record o).loaded = h.loaded := by
  unfold History.record
  split
  · rw [ho]
  · rfl
  · rfl

theorem loaded_record_loadOp (h : History) (i : Fin 3) (buf : List (BitVec 8)) :
    (h.record (loadOp i buf)).loaded = Function.update h.loaded i (some buf) := by
  unfold History.record
  rw [load_loadOp]
  rfl

theorem chip_of_offline {o : Op} (h : o.Offline) {d d' : Driver} {r : Ans o}
    (hexec : exec o d = some (r, d')) : d'.chip = d.chip := by
  cases o with
  | spi => exact h.elim
  | spinWhileNonzero | txbLock | queueLockWait =>
      simp only [exec] at hexec
      split at hexec <;> cases hexec
      rfl
  | mqAppend q frame | mqRemove q =>
      cases hexec
      cases q <;> rfl
  | undefined => cases hexec
  | _ =>
      cases hexec
      rfl

theorem agrees_of_plain {o : Op} (h : o.Plain ∨ o.Offline) {d d' : Driver} {r : Ans o}
    (hexec : exec o d = some (r, d')) : d.chip.Agrees d'.chip := by
  rcases h with h | h
  · exact (h.quiet hexec).chip
  · rw [chip_of_offline h hexec]
    exact .refl _

namespace Ruled

variable {gc gc' : Aim} {gh gh' : Grip} {s s' : System}

/-- What does not concern the buffers. -/
theorem quiet (h : Ruled gc gh s) (hchip : s.driver.chip.Agrees s'.driver.chip)
    (hloaded : s'.history.loaded = s.history.loaded) (hmay : ∀ i, s'.MayLoad i → s.MayLoad i)
    (hdirect : gc = .direct → ∃ txbIdx frame p, s'.client = some (.sendto txbIdx frame, p)) :
    Ruled gc gh s' where
  owned i := by
    rw [hchip.flagged, hchip.requested, hloaded]
    exact (h.owned i).mono id id (hmay i) id id id .rfl
  noticed i hi := by
    rw [hchip.flagged]
    exact h.noticed i hi
  bytes i buf hbuf := by
    rw [hloaded] at hbuf
    obtain ⟨hlen, hbytes⟩ := h.bytes i buf hbuf
    exact ⟨hlen, fun k hk => (hchip.txb i k (by omega)).trans (hbytes k hk)⟩
  direct := hdirect

/-- Loading a buffer stores the bytes, and leaves the other buffers alone. -/
theorem bytes_load (h : Ruled gc gh s) {i j : Fin 3} {buf buf' : List (BitVec 8)}
    (hbuf : buf.length ≤ 13) (hbuf' : (s.history.record (loadOp j buf)).loaded i = some buf') :
    buf'.length ≤ 13 ∧ ∀ k < buf'.length,
      (s.driver.chip.spi ((0x40 ||| (BitVec.ofInt 8 j * 2 ||| 0)) :: buf) 0).2.txb i k =
        buf'.getD k 0 := by
  rw [loaded_record_loadOp] at hbuf'
  by_cases hij : i = j
  · subst hij
    rw [Function.update_self] at hbuf'
    cases hbuf'
    refine ⟨hbuf, fun k hk => ?_⟩
    rw [Chip.txb_load _ _ _ hbuf (by omega), if_pos ⟨rfl, hk⟩]
  · rw [Function.update_of_ne hij] at hbuf'
    obtain ⟨hlen, hbytes⟩ := h.bytes i buf' hbuf'
    refine ⟨hlen, fun k hk => ?_⟩
    rw [Chip.txb_load _ _ _ hbuf (by omega), if_neg (fun hc => hij hc.1)]
    exact hbytes k hk

theorem bytes_rts (h : Ruled gc gh s) {mask : BitVec 8} (hmask : mask &&& 0xF8 = 0) {i : Fin 3}
    {buf : List (BitVec 8)} (hbuf : s.history.loaded i = some buf) :
    buf.length ≤ 13 ∧ ∀ k < buf.length,
      (s.driver.chip.spi [0x80 ||| mask] 0).2.txb i k = buf.getD k 0 := by
  obtain ⟨hlen, hbytes⟩ := h.bytes i buf hbuf
  exact ⟨hlen, fun k hk => (Chip.txb_rts _ hmask i (by omega)).trans (hbytes k hk)⟩

theorem bytes_canintf (h : Ruled gc gh s) {mask val : BitVec 8} {i : Fin 3}
    {buf : List (BitVec 8)} (hbuf : s.history.loaded i = some buf) :
    buf.length ≤ 13 ∧ ∀ k < buf.length,
      (s.driver.chip.spi [0x05, canintf, mask, val] 0).2.txb i k = buf.getD k 0 := by
  obtain ⟨hlen, hbytes⟩ := h.bytes i buf hbuf
  exact ⟨hlen, fun k hk => (Chip.txb_bitModify_canintf _ _ _ i (by omega)).trans (hbytes k hk)⟩

/-- Whoever has loaded a buffer, if the buffers have their owners again. -/
theorem afterLoad (h : Ruled gc gh s) {j : Fin 3} {buf : List (BitVec 8)} (hbuf : buf.length ≤ 13)
    (hchip : s'.driver.chip =
      (s.driver.chip.spi ((0x40 ||| (BitVec.ofInt 8 j * 2 ||| 0)) :: buf) 0).2)
    (hhistory : s'.history = s.history.record (loadOp j buf))
    (howned : ∀ i, Owned (s.driver.chip.flagged i = true) (s.driver.chip.requested i = true)
      (s'.MayLoad i) (i ∈ gh'.out) (gc' = .aiming i) (gc' = .loaded i)
      (Function.update s.history.loaded j (some buf) i ≠ none))
    (hnoticed : gh'.noticed = gh.noticed)
    (hdirect : gc' = .direct → ∃ txbIdx frame p, s'.client = some (.sendto txbIdx frame, p)) :
    Ruled gc' gh' s' where
  owned i := by
    rw [hchip, Chip.flagged_load _ _ _ hbuf, Chip.requested_load _ _ _ hbuf, hhistory,
      loaded_record_loadOp]
    exact howned i
  noticed i hi := by
    rw [hchip, Chip.flagged_load _ _ _ hbuf]
    exact h.noticed i (hnoticed ▸ hi)
  bytes i buf' hbuf' := by
    rw [hhistory] at hbuf'
    rw [hchip]
    exact h.bytes_load hbuf hbuf'
  direct := hdirect

/-- Whoever has requested loaded buffers, if the buffers have their owners again. -/
theorem afterRequest (h : Ruled gc gh s) {mask : BitVec 8} (hmask : mask &&& 0xF8 = 0)
    (hchip : s'.driver.chip = (s.driver.chip.spi [0x80 ||| mask] 0).2)
    (hhistory : s'.history = s.history.record (.spi [0x80 ||| mask] 0))
    (howned : ∀ i : Fin 3, Owned (s.driver.chip.flagged i = true)
      ((s.driver.chip.requested i || mask.getLsbD i) = true) (s'.MayLoad i) (i ∈ gh'.out)
      (gc' = .aiming i) (gc' = .loaded i) (s.history.loaded i ≠ none))
    (hnoticed : gh'.noticed = gh.noticed)
    (hdirect : gc' = .direct → ∃ txbIdx frame p, s'.client = some (.sendto txbIdx frame, p)) :
    Ruled gc' gh' s' where
  owned i := by
    rw [hchip, Chip.requested_rts _ hmask, Chip.flagged_rts _ hmask, hhistory,
      loaded_record_of_none (load_of_rts mask)]
    exact howned i
  noticed i hi := by
    rw [hchip, Chip.flagged_rts _ hmask]
    exact h.noticed i (hnoticed ▸ hi)
  bytes i buf hbuf := by
    rw [hhistory, loaded_record_of_none (load_of_rts mask)] at hbuf
    rw [hchip]
    exact h.bytes_rts hmask hbuf
  direct := hdirect

/-- What the handler does keeps the rules. -/
theorem handles (h : Ruled gc gh s) {o : Op} {k : Ans o → Io Unit} {r : Ans o} {d : Driver}
    {Q : Unit → Grip → Prop} (hprog : s.handler = .call o k) (hs : Handles gh o r gh')
    (hk : (k r).Follows Handles gh' Q) (hexec : exec o s.driver = some (r, d)) :
    Ruled gc gh' { s with driver := d, handler := k r, history := s.history.record o } := by
  have hmay : ∀ i, ¬ o.Clears i → ¬ (k r).Guarded (Op.Clears i) (Op.Loads i) → s.MayLoad i := by
    intro i hclears hi
    rw [System.MayLoad, hprog]
    exact mayLoad_of_call hclears hi
  cases hs with
  | plain ho =>
      exact h.quiet (agrees_of_plain ho hexec) (loaded_record_of_none (load_of_plain ho))
        (fun i => hmay i (cleared_of_plain ho i)) h.direct
  | notice r =>
      have hplain : (Op.spi [0x03, canintf] 1).Plain := .read _ _
      obtain ⟨rfl, rfl⟩ := exec_spi hexec
      refine ⟨fun i => ?_, fun i hi => ?_, h.bytes, h.direct⟩
      · exact (h.owned i).mono id id (hmay i (cleared_of_plain (.inl hplain) i)) False.elim id id .rfl
      · have hbit : ((s.driver.chip.spi [0x03, canintf] 1).1.headD 0).getLsbD (i + 2) = true := hi
        rw [Chip.spi_read, Chip.readFrom_canintf, List.headD_cons] at hbit
        exact hbit
  | take mask r hmask =>
      obtain ⟨-, rfl⟩ := exec_spi hexec
      refine ⟨fun i => ?_, fun i hi => hi.elim, fun i buf hbuf => ?_, h.direct⟩
      · simp only [Chip.flagged_clear, Chip.requested_bitModify_canintf]
        rw [loaded_record_of_none rfl]
        by_cases hi : mask.getLsbD (i + 2) = true
        · refine ((h.owned i).take (h.noticed i (hmask i hi))).mono ?_ id (fun _ => trivial)
            False.elim id id .rfl
          simp [hi]
        · refine (h.owned i).mono ?_ id (hmay i ?_) False.elim id id .rfl
          · simp [hi]
          · rwa [clears_clear_iff]
      · rw [loaded_record_of_none rfl] at hbuf
        exact h.bytes_canintf hbuf
  | load j buf r hbuf hj =>
      obtain ⟨-, rfl⟩ := exec_spi hexec
      have hload : (loadOp j buf).load ≠ none := by simp
      have hclears := fun i => not_clears_of_load hload i
      refine h.afterLoad hbuf rfl rfl (fun i => ?_) rfl h.direct
      by_cases hij : i = j
      · subst hij
        have hnow : s.MayLoad i := by
          rw [System.MayLoad, hprog]
          rintro (hc | hc)
          · exact hclears i hc
          · exact hc.1 ⟨buf, load_loadOp i buf⟩
        have hguarded : (k r).Guarded (Op.Clears i) (Op.Loads i) :=
          guarded_of_handles hk fun hmem => hmem.2 rfl
        rw [Function.update_self]
        refine ((h.owned i).load hnow).mono id id (fun hc => ?_) (fun _ => trivial) id id ?_
        · exact absurd hguarded hc
        · exact ⟨fun _ => trivial, fun _ => nofun⟩
      · rw [Function.update_of_ne hij]
        exact (h.owned i).mono id id (hmay i (hclears i))
          (fun hmem => (Set.mem_insert_iff.1 hmem).resolve_left hij) id id .rfl
  | request mask r hmask hout =>
      obtain ⟨-, rfl⟩ := exec_spi hexec
      have hclears : ∀ i, ¬ (Op.spi [0x80 ||| mask] 0).Clears i := fun i => by
        simp [Op.Clears, Op.cleared]
      refine h.afterRequest hmask rfl rfl (fun i => ?_) rfl h.direct
      by_cases hi : mask.getLsbD i = true
      · exact ((h.owned i).requested (hout i hi)).mono id (fun _ => trivial) (hmay i (hclears i))
          False.elim id id .rfl
      · rw [Bool.not_eq_true] at hi
        rw [hi, Bool.or_false]
        exact (h.owned i).mono id id (hmay i (hclears i)) False.elim id id .rfl

/-- What the client does keeps the rules, if it is careful. -/
theorem directs (h : Ruled gc gh s) (hcareful : s.Careful .client) {c : Call} {o : Op}
    {k : Ans o → Io Reply} {r : Ans o} {d : Driver} (hprog : s.client = some (c, .call o k))
    (hs : Directs gc o r gc') (hexec : exec o s.driver = some (r, d)) :
    Ruled gc' gh
      { s with driver := d, client := some (c, k r), history := s.history.record o } := by
  cases hs with
  | plain ho =>
      refine h.quiet (agrees_of_plain ho hexec) (loaded_record_of_none (load_of_plain ho))
        (fun _ => id) fun hgc => ?_
      obtain ⟨txbIdx, frame, p, hclient⟩ := h.direct hgc
      rw [hprog] at hclient
      cases hclient
      exact ⟨txbIdx, frame, k r, rfl⟩
  | aim i r hidle =>
      obtain ⟨rfl, rfl⟩ := exec_spi hexec
      rw [Chip.spi_read, Chip.readFrom_txbctrl, List.headD_cons,
        Chip.and_txreq_eq_zero_iff] at hidle
      have hfree : s.Free i := by
        obtain ⟨txbIdx, frame, p, hclient⟩ := h.direct rfl
        have hc : ∃ txbIdx frame, c = .sendto txbIdx frame := by
          rw [hprog] at hclient
          cases hclient
          exact ⟨txbIdx, frame, rfl⟩
        refine ((hcareful rfl c _ k hprog i).2 rfl hc).resolve_left fun hreq => ?_
        rw [Chip.requested, hidle] at hreq
        cases hreq
      refine ⟨fun j => ?_, h.noticed, h.bytes, (by rintro ⟨⟩)⟩
      by_cases hji : j = i
      · subst hji
        exact ((h.owned j).aimed (by simp [hfree.flagged]) (by simp [hfree.requested])
          (fun hmay => hmay hfree.guarded) (by rintro ⟨⟩) (by simp [hfree.loaded])).mono id id id id
            (fun _ => trivial) (by rintro ⟨⟩) .rfl
      · refine (h.owned j).mono id id id id (fun haim => ?_) (by rintro ⟨⟩) .rfl
        cases haim
        exact absurd rfl hji
  | load i buf r hbuf =>
      obtain ⟨-, rfl⟩ := exec_spi hexec
      refine h.afterLoad hbuf rfl rfl (fun j => ?_) rfl (by rintro ⟨⟩)
      by_cases hji : j = i
      · subst hji
        rw [Function.update_self]
        exact ((h.owned j).loadByClient rfl).mono id id id id (by rintro ⟨⟩) (fun _ => trivial)
          ⟨fun _ => trivial, fun _ => (by rintro ⟨⟩)⟩
      · rw [Function.update_of_ne hji]
        refine (h.owned j).mono id id id id (by rintro ⟨⟩) (fun hown => ?_) .rfl
        cases hown
        exact absurd rfl hji
  | request i r =>
      obtain ⟨-, rfl⟩ := exec_spi hexec
      refine h.afterRequest (and_bit_eq_zero i) rfl rfl (fun j => ?_) rfl (by rintro ⟨⟩)
      rw [getLsbD_bit_eq]
      by_cases hji : j = i
      · subst hji
        exact ((h.owned j).requestByClient rfl).mono id (fun _ => trivial) id id (by rintro ⟨⟩)
          (by rintro ⟨⟩) .rfl
      · rw [decide_eq_false hji, Bool.or_false]
        exact (h.owned j).mono id id id id (by rintro ⟨⟩) (by rintro ⟨⟩) .rfl
  | raise i r =>
      obtain ⟨-, rfl⟩ := exec_spi hexec
      have hset := ((hcareful rfl c _ k hprog i).1 rfl)
      refine ⟨fun j => ?_, fun j hj => ?_, fun j buf hbuf => ?_, (by rintro ⟨⟩)⟩
      · simp only [Chip.flagged_raise, Chip.requested_bitModify_canintf]
        rw [loaded_record_of_none rfl]
        by_cases hji : j = i
        · subst hji
          rcases hset with hflag | hfree
          · exact (h.owned j).mono (fun _ => hflag) id id id (by rintro ⟨⟩) (by rintro ⟨⟩) .rfl
          · exact ((h.owned j).raise (by simp [hfree.requested]) (fun hmay => hmay hfree.guarded)
              (by rintro ⟨⟩) (by rintro ⟨⟩) (by simp [hfree.loaded])).mono (fun _ => trivial) id id id
              (by rintro ⟨⟩) (by rintro ⟨⟩) .rfl
        · rw [decide_eq_false hji, Bool.or_false]
          exact (h.owned j).mono id id id id (by rintro ⟨⟩) (by rintro ⟨⟩) .rfl
      · rw [Chip.flagged_raise, h.noticed j hj, Bool.true_or]
      · rw [loaded_record_of_none rfl] at hbuf
        exact h.bytes_canintf hbuf

end Ruled

/-! ## The programs obey the protocols -/

theorem offline_of_rx {o : Op} (h : o.Plain ∨ o.Rx) : o.Plain ∨ o.Offline := by
  rcases h with h | h
  · exact .inl h
  · cases h <;> exact .inr trivial

theorem handles_plain {α : Type} {p : Io α} (h : p.Every fun o => o.Plain ∨ o.Offline) (g : Grip) :
    p.Follows Handles g fun _ g' => g' = g :=
  h.follows fun _ _ ho => .plain ho

theorem handles_loadTxb {g : Grip} {i : Fin 3} (hi : i ∈ g.hand) (frame : CanFrame) :
    (loadTxb i frame).Follows Handles g fun _ g' =>
      g' = ⟨g.noticed, g.hand \ {i}, insert i g.out⟩ := by
  unfold loadTxb
  split
  · rename_i hdlc
    refine fun r => ⟨_, .load i _ r (length_txbImage_le hdlc) hi, ?_⟩
    exact handles_plain (every_bitModify (.inl (.priority i _))) _
  · exact fun r => nomatch r

/-- The handler either loads the buffer that it has in hand, or leaves it. -/
theorem handles_serveTxb {g : Grip} {i : Fin 3} (hi : i ∈ g.hand) (rts : BitVec 8) :
    (serveTxb i rts).Follows Handles g fun rts' g' =>
      (g' = ⟨g.noticed, g.hand \ {i}, insert i g.out⟩ ∧ rts' = rts ||| 1#8 <<< i.val) ∨
        (g' = g ∧ rts' = rts) := by
  refine (handles_plain ((plain_canidClearCache i).mono fun _ => .inl) _).seq fun _ => ?_
  refine fun _ => ⟨g, .plain (.inr trivial), ?_⟩
  refine (handles_plain (every_queuePop (.inr trivial) (.inr trivial)) _).seq fun popped => ?_
  cases popped with
  | some frame =>
      refine (handles_plain (every_perform (.inl (.spin _))) _).seq fun _ => ?_
      exact (handles_loadTxb hi frame).seq fun _ => .inl ⟨rfl, rfl⟩
  | none =>
      refine fun _ => ⟨g, .plain (.inr trivial), fun _ => ⟨g, .plain (.inr trivial), ?_⟩⟩
      exact fun _ => ⟨g, .plain (.inr trivial), .inr ⟨rfl, rfl⟩⟩

theorem handles_transmitLoop (tx : BitVec 8) (is : List (Fin 3)) (rts : BitVec 8) (g : Grip)
    (hnodup : is.Nodup) (hhand : ∀ j ∈ is, tx.getLsbD j → j ∈ g.hand)
    (hout : ∀ j : Fin 3, rts.getLsbD j → j ∈ g.out) (hrts : rts &&& 0xF8 = 0) :
    (transmitLoop tx is rts).Follows Handles g fun rts' g' =>
      rts' &&& 0xF8 = 0 ∧ ∀ j : Fin 3, rts'.getLsbD j → j ∈ g'.out := by
  induction is generalizing rts g with
  | nil => exact ⟨hrts, hout⟩
  | cons i is ih =>
      obtain ⟨hi, hnodup⟩ := List.nodup_cons.1 hnodup
      have hrest : ∀ j ∈ is, tx.getLsbD j → j ∈ g.hand := fun j hj =>
        hhand j (List.mem_cons_of_mem i hj)
      unfold transmitLoop
      split
      · rename_i htx
        refine ((handles_serveTxb (hhand i List.mem_cons_self htx) rts).mono fun rts' g' h => ?_).bind
        rcases h with ⟨rfl, rfl⟩ | ⟨rfl, rfl⟩
        · refine ih _ _ hnodup (fun j hj htx => ⟨hrest j hj htx, ?_⟩) (fun j hj => ?_) ?_
          · rintro rfl
            exact hi hj
          · rw [BitVec.getLsbD_or, getLsbD_bit_eq, Bool.or_eq_true, decide_eq_true_iff] at hj
            exact hj.elim (fun hj => .inr (hout j hj)) .inl
          · rw [BitVec.and_or_distrib_right, hrts, and_bit_eq_zero]
            rfl
        · exact ih _ _ hnodup hrest hout hrts
      · exact ih _ _ hnodup hrest hout hrts

theorem handles_transmitMessage {tx : BitVec 8} {g : Grip}
    (h : ∀ i : Fin 3, tx.getLsbD i → i ∈ g.noticed) :
    (transmitMessage tx).Follows Handles g fun _ _ => True := by
  refine fun r => ⟨_, .take _ r fun i hi => h i (by rwa [← getLsbD_txif]), ?_⟩
  refine ((handles_transmitLoop tx [2, 1, 0] 0 _ (by decide) (fun j _ hj => ?_) (fun j hj => ?_)
    rfl).mono fun rts g h => ?_).bind
  · exact (getLsbD_txif tx j).trans hj
  · simp at hj
  · exact fun r => ⟨_, .request rts r h.1 h.2, trivial⟩

theorem handles_rest {p : Io Unit} (h : p.Every fun o => o.Plain ∨ o.Offline) (g : Grip) :
    p.Follows Handles g fun _ _ => True := (handles_plain h g).mono fun _ _ _ => trivial

/-- The handler without work. -/
def Grip.none : Grip := ⟨∅, ∅, ∅⟩

theorem handles_irqHandler (frame : CanFrame) :
    (irqHandler frame).Follows Handles .none fun _ _ => True := by
  intro r
  refine ⟨_, .notice r, ?_⟩
  have hplain : ∀ {p : Io Unit} {mask : BitVec 8} {g : Grip}, p.Every Op.Plain →
      (onFlag (r.headD 0) mask p).Follows Handles g fun _ g' => g' = g :=
    fun h => handles_plain ((every_onFlag h).mono fun _ => .inl) _
  refine (hplain plain_reportMessageError).seq fun _ => ?_
  refine (hplain (plain_clearFlags canintfWakif (by decide))).seq fun _ => ?_
  refine (hplain plain_reportError).seq fun _ => ?_
  refine Follows.bind (Follows.mono (Q := fun _ _ => True) ?_ fun _ g _ => ?_)
  · refine follows_onFlag (handles_transmitMessage fun i hi => ?_) trivial
    rw [BitVec.getLsbD_ushiftRight, BitVec.getLsbD_and, Nat.add_comm, Bool.and_eq_true] at hi
    exact hi.1
  · refine handles_rest (Every.bind ?_ fun _ => every_perform (.inl .intAck)) g
    exact every_onFlag ((rx_receiveMessage _ frame).mono fun _ => offline_of_rx)

theorem directs_plain {α : Type} {p : Io α} (h : p.Every fun o => o.Plain ∨ o.Offline) (g : Aim) :
    p.Follows Directs g fun _ g' => g' = g :=
  h.follows fun _ _ ho => .plain ho

theorem directs_raiseLoop (is : List (Fin 3)) :
    (raiseLoop is).Follows Directs .idle fun _ g => g = .idle := by
  induction is with
  | nil => rfl
  | cons i is ih =>
      refine (directs_plain (every_readReg (.inl (.read _ _))) _).seq fun ctrl => ?_
      split
      · exact fun r => ⟨_, .raise i r, fun _ => ⟨_, .plain (.inr trivial), ih⟩⟩
      · exact ih

theorem directs_startXmit : startXmit.Follows Directs .idle fun _ _ => True := by
  rintro (_ | _)
  · exact ⟨_, .plain (.inr trivial), trivial⟩
  · refine ⟨_, .plain (.inr trivial), fun _ => ⟨_, .plain (.inr trivial), ?_⟩⟩
    exact (directs_raiseLoop [0, 1, 2]).seq fun _ _ => ⟨_, .plain (.inr trivial), trivial⟩

theorem directs_canSend (frame : CanFrame) :
    (canSend frame).Follows Directs .idle fun _ _ => True := by
  refine (directs_plain (every_queuePush (.inr trivial) (fun _ => .inr trivial) frame) _).seq
    fun ret => ?_
  exact (directs_startXmit.mono fun _ _ _ => trivial).bind

theorem directs_loadTxb (i : Fin 3) (frame : CanFrame) :
    (loadTxb i frame).Follows Directs (.aiming i) fun _ g => g = .loaded i := by
  unfold loadTxb
  split
  · rename_i hdlc
    refine fun r => ⟨_, .load i _ r (length_txbImage_le hdlc), ?_⟩
    exact directs_plain (every_bitModify (.inl (.priority i _))) _
  · exact fun r => nomatch r

theorem directs_canSendto (txbIdx : ℤ) (frame : CanFrame) :
    (canSendto txbIdx frame).Follows Directs .direct fun _ _ => True := by
  by_cases h : ∃ i : Fin 3, txbIdx = i
  · obtain ⟨i, rfl⟩ := h
    intro r
    by_cases hidle : r.headD 0 &&& txbctrlTxreq = 0
    · refine ⟨_, .aim i r hidle, ?_⟩
      have hstatus : statusOfCtrl (r.headD 0) = .idle := if_neg (not_not.2 hidle)
      simp only [pure_eq, ret_bind, hstatus, if_true]
      rw [getFramePriority_fin]
      refine (directs_plain ((plain_getFramePriorityAt i _).mono fun _ => .inl) _).seq fun prio => ?_
      refine (directs_loadTxb i _).seq fun _ => ?_
      exact fun r => ⟨_, .request i r, trivial⟩
    · refine ⟨_, .plain (.inl (.read _ _)), ?_⟩
      have hstatus : statusOfCtrl (r.headD 0) ≠ .idle := by
        rw [statusOfCtrl, if_pos hidle]
        split_ifs <;> exact nofun
      simp only [pure_eq, ret_bind, if_neg hstatus]
      trivial
  · refine (directs_plain ((plain_txbStatus txbIdx).mono fun _ => .inl) _).seq fun status => ?_
    split
    · obtain ⟨k, hk⟩ := getFramePriority_other (fun i hi => h ⟨i, hi⟩) frame.ident
      rw [hk]
      exact fun r => nomatch r
    · trivial

/-- Where a call starts. -/
def Call.aim : Call → Aim
  | .sendto _ _ => .direct
  | _ => .idle

theorem directs_body (c : Call) : c.body.Follows Directs c.aim fun _ _ => True := by
  cases c with
  | send frame => exact ((directs_canSend frame).mono fun _ _ _ => trivial).bind
  | sendto txbIdx frame => exact ((directs_canSendto txbIdx frame).mono fun _ _ _ => trivial).bind
  | recv =>
      refine (directs_plain (rx_canRecv.mono fun _ => offline_of_rx) _).seq fun _ => ?_
      trivial

/-! ## Runs -/

namespace Ruled

variable {gc gc' : Aim} {gh : Grip} {s s' : System}

/-- Between the operations: a call starts or returns. -/
theorem between (h : Ruled gc gh s) (hdriver : s'.driver = s.driver)
    (hhandler : s'.handler = s.handler) (hloaded : s'.history.loaded = s.history.loaded)
    (haim : ∀ i, gc' ≠ .aiming i ∧ gc' ≠ .loaded i)
    (hdirect : gc' = .direct → ∃ txbIdx frame p, s'.client = some (.sendto txbIdx frame, p)) :
    Ruled gc' gh s' where
  owned i := by
    rw [System.MayLoad, hdriver, hhandler, hloaded]
    exact (h.owned i).mono id id id id (fun hc => absurd hc (haim i).1)
      (fun hc => absurd hc (haim i).2) .rfl
  noticed := by rw [hdriver]; exact h.noticed
  bytes := by rw [hdriver, hloaded]; exact h.bytes
  direct := hdirect

theorem call (h : Ruled gc gh s) (c : Call) (hdriver : s'.driver = s.driver)
    (hhandler : s'.handler = s.handler) (hloaded : s'.history.loaded = s.history.loaded)
    (hclient : s'.client = some (c, c.body)) : Ruled c.aim gh s' := by
  refine h.between hdriver hhandler hloaded (fun i => ?_) fun haim => ?_
  · cases c <;> exact ⟨nofun, nofun⟩
  · cases c with
    | sendto txbIdx frame => exact ⟨txbIdx, frame, _, hclient⟩
    | send | recv => cases haim

/-- What the controller does by itself keeps the rules. -/
theorem event (h : Ruled gc gh s) {e : ChipEvent} {chip : Chip}
    (he : s.driver.chip.event e = some chip) :
    Ruled gc gh
      { s with driver := { s.driver with chip := chip }, history := s.history.event e } := by
  by_cases hsent : ∃ i, e = .sent i
  · obtain ⟨i, rfl⟩ := hsent
    have hchip := Chip.sent_of_event he
    refine ⟨fun j => ?_, fun j hj => ?_, fun j buf hbuf => ?_, h.direct⟩
    · simp only [hchip.requested, hchip.flagged, History.event]
      by_cases hji : j = i
      · subst hji
        rw [Function.update_self]
        exact ((h.owned j).sent hchip.was).mono (fun _ => trivial) (by simp) id id id id (by simp)
      · rw [Function.update_of_ne hji]
        exact (h.owned j).mono (by simp [hji]) (by simp [hji]) id id id id .rfl
    · rw [hchip.flagged, h.noticed j hj, Bool.true_or]
    · have hbuf : s.history.loaded j = some buf := by
        by_cases hji : j = i
        · subst hji
          simp [History.event] at hbuf
        · simpa [History.event, hji] using hbuf
      obtain ⟨hlen, hbytes⟩ := h.bytes j buf hbuf
      exact ⟨hlen, fun k hk => (hchip.txb j k (by omega)).trans (hbytes k hk)⟩
  · have hne : ∀ i, e ≠ .sent i := fun i hi => hsent ⟨i, hi⟩
    have hloaded : (s.history.event e).loaded = s.history.loaded := by
      cases e with
      | sent i => exact absurd rfl (hne i)
      | receive | error => rfl
    exact h.quiet (Chip.agrees_of_event hne he) hloaded (fun _ => id) h.direct

end Ruled

/-- The next operation of a program loads a buffer. -/
def nextLoad {α : Type} : Io α → Option (Fin 3)
  | .ret _ => none
  | .call o _ => o.load.map Prod.fst

namespace System

/-- One of the threads is about to load buffer `i`. -/
def Loads (s : System) (i : Fin 3) : Prop :=
  nextLoad s.handler = some i ∨ ∃ c p, s.client = some (c, p) ∧ nextLoad p = some i

/-- Both threads obey their protocols, and the buffers have owners. -/
def Orderly (s : System) : Prop :=
  ∃ gc gh, (∀ c p, s.client = some (c, p) → p.Follows Directs gc fun _ _ => True) ∧
    s.handler.Follows Handles gh (fun _ _ => True) ∧ Ruled gc gh s

/-- The threads are at rest, and nothing waits to be sent. -/
structure Unloaded (s : System) : Prop where
  atRest : s.AtRest
  requested : ∀ i, s.driver.chip.requested i = false
  loaded : ∀ i, s.history.loaded i = none

/-- A careful step, in which the lengths fit. -/
def CarefulStep (s : System) (a : Act) (u : Unit) (s' : System) : Prop :=
  s.Step a u s' ∧ s.Careful a ∧ s.short a = true

theorem Unloaded.orderly {s : System} (h : s.Unloaded) : s.Orderly := by
  refine ⟨.idle, .none, ?_, ?_, fun i => ⟨.flag, ?_⟩, fun i hi => hi.elim, ?_, nofun⟩
  · rw [h.atRest.1]
    exact nofun
  · rw [h.atRest.2]
    trivial
  · refine ⟨fun _ => rfl, fun hc => ?_, fun hc => ?_, fun hc => hc.elim, nofun, nofun, fun hc => ?_⟩
    · rw [h.requested] at hc
      cases hc
    · rw [MayLoad, h.atRest.2] at hc
      exact absurd trivial hc
    · exact absurd (h.loaded i) hc
  · intro i buf hbuf
    rw [h.loaded] at hbuf
    cases hbuf

theorem Orderly.step {s s' : System} {a : Act} (h : s.Orderly) (hcareful : s.Careful a)
    (hstep : s.step a = some s') : s'.Orderly := by
  obtain ⟨gc, gh, hclient, hhandler, hruled⟩ := h
  cases moves_of_step hstep with
  | call c hidle =>
      refine ⟨c.aim, gh, fun c' p hc => ?_, hhandler, hruled.call c rfl rfl rfl rfl⟩
      cases hc
      exact directs_body c
  | @reply c r hprog =>
      have hidle : Ruled .idle gh { s with client := none } :=
        hruled.between rfl rfl rfl (fun _ => ⟨nofun, nofun⟩) nofun
      cases r with
      | again =>
          refine ⟨c.aim, gh, fun c' p hc => ?_, hhandler, hruled.call c rfl rfl rfl rfl⟩
          cases hc
          exact directs_body c
      | done | status _ => exact ⟨.idle, gh, nofun, hhandler, hidle⟩
      | frame f =>
          exact ⟨.idle, gh, nofun, hhandler,
            hruled.between rfl rfl rfl (fun _ => ⟨nofun, nofun⟩) nofun⟩
  | @client c o k r d hprog hexec =>
      obtain ⟨gc', hnext, hk⟩ := hclient c _ hprog r
      refine ⟨gc', gh, fun c' p hc => ?_, hhandler, hruled.directs hcareful hprog hnext hexec⟩
      cases hc
      exact hk
  | irq frame hrest =>
      have hirq := handles_irqHandler frame
      refine ⟨gc, .none, hclient, hirq, fun i => ?_, fun i hi => hi.elim, hruled.bytes,
        hruled.direct⟩
      have hguarded := guarded_of_handles hirq (Set.notMem_empty i)
      exact (hruled.owned i).mono id id (fun hc => absurd hguarded hc) False.elim id id .rfl
  | @handler o k r d hprog hexec =>
      rw [hprog] at hhandler
      obtain ⟨gh', hnext, hk⟩ := hhandler r
      exact ⟨gc, gh', hclient, hk, hruled.handles hprog hnext hk hexec⟩
  | chip hevent => exact ⟨gc, gh, hclient, hhandler, hruled.event hevent⟩

theorem Orderly.loads_free {s : System} (h : s.Orderly) {i : Fin 3} (hload : s.Loads i) :
    s.driver.chip.requested i = false ∧ s.history.loaded i = none := by
  obtain ⟨gc, gh, hclient, -, hruled⟩ := h
  have hright : s.MayLoad i ∨ gc = .aiming i := by
    rcases hload with hload | ⟨c, p, hc, hload⟩
    · left
      rw [MayLoad]
      cases hprog : s.handler with
      | ret u =>
          rw [hprog] at hload
          cases hload
      | call o k =>
          rw [hprog] at hload
          obtain ⟨⟨j, buf⟩, ho, rfl⟩ := Option.map_eq_some_iff.1 hload
          rintro (hc | hc)
          · exact not_clears_of_load (ho ▸ Option.some_ne_none _) j hc
          · exact hc.1 ⟨buf, ho⟩
    · right
      cases p with
      | ret r => cases hload
      | call o k =>
          obtain ⟨⟨j, buf⟩, ho, rfl⟩ := Option.map_eq_some_iff.1 hload
          have hr : Nonempty (Ans o) := by
            cases o <;> first | exact ⟨[]⟩ | cases ho
          obtain ⟨r⟩ := hr
          obtain ⟨gc', hnext, -⟩ := hclient c _ hc r
          cases hnext with
          | plain hplain =>
              rw [load_of_plain hplain] at ho
              cases ho
          | load j' buf' r hbuf =>
              rw [load_loadOp] at ho
              cases ho
              rfl
          | request j' r =>
              rw [load_of_rts] at ho
              cases ho
          | aim | raise => cases ho
  have hfree := (hruled.owned i).free hright
  exact ⟨by simpa using hfree.1, by simpa using hfree.2⟩

/-- In a run of careful steps, a buffer is loaded only when it is not requested and no frame is in
it that has not been sent; a frame that has been loaded stays in its buffer until it is sent; and no
thread comes to an access outside of an array. -/
theorem frames_kept {s : System} (h : Transition.Reachable CarefulStep Unloaded s) :
    (∀ i, s.Loads i → s.driver.chip.requested i = false ∧ s.history.loaded i = none) ∧
      (∀ i buf, s.history.loaded i = some buf →
        ∀ k < buf.length, s.driver.chip.txb i k = buf.getD k 0) ∧ ¬ s.Astray := by
  obtain ⟨horderly, hdefined⟩ := h.invariant (I := fun s => s.Orderly ∧ s.Defined)
    (fun _ hs => ⟨hs.orderly, defined_of_atRest hs.atRest⟩) fun _ _ _ _ hI hstep =>
      ⟨hI.1.step hstep.2.1 hstep.1, hI.2.step hstep.2.2 hstep.1⟩
  refine ⟨fun i hload => horderly.loads_free hload, fun i buf hbuf => ?_, hdefined.not_astray⟩
  obtain ⟨gc, gh, -, -, hruled⟩ := horderly
  exact (hruled.bytes i buf hbuf).2

/-- The step is not one of the client, and the lengths fit, which makes it careful. -/
def isOthers (s : System) : Act → Bool
  | .client => false
  | a => s.short a

theorem carefulStep_of_others (s : System) (a : Act) (s' : System) (ha : isOthers s a = true)
    (hstep : s.step a = some s') : s.CarefulStep a () s' := by
  cases a with
  | client => cases ha
  | _ => exact ⟨hstep, nofun, ha⟩

/-- The component with one frame in the TX queue and all transmit flags set. -/
def oneQueued : System :=
  let s := booted ⟨fun a => if a = toAddr canintf then txifMask else 0⟩ fun _ => .bare 0x123
  { s with driver := { s.driver with txq := s.driver.txq.push } }

theorem unloaded_oneQueued : oneQueued.Unloaded := ⟨⟨rfl, rfl⟩, by decide, fun _ => rfl⟩

/-- The handler on its way to the load of buffer 2. -/
theorem run_oneQueued :
    (oneQueued.run isOthers (.irq (.bare 0) :: List.replicate 7 .handler)).map
      (fun s => nextLoad s.handler) = some (some 2) := rfl

/-- The handler serves the first frame: buffer 2 is free when it is loaded. -/
theorem frames_kept_one_queued :
    ∃ s : System, s.Loads 2 ∧ s.driver.chip.requested 2 = false ∧ s.history.loaded 2 = none := by
  obtain ⟨s, hrun, hload⟩ := Option.map_eq_some_iff.1 run_oneQueued
  have hreach := reachable_of_run carefulStep_of_others hrun (.of_init unloaded_oneQueued)
  exact ⟨s, .inl hload, (frames_kept hreach).1 2 (.inl hload)⟩

theorem unloaded_booted : (booted ⟨fun _ => 0⟩ fun _ => .bare 0).Unloaded :=
  ⟨⟨rfl, rfl⟩, by decide, fun _ => rfl⟩

/-- `can_send` raises all flags, `can_sendto` loads and requests buffer 2, and the handler takes
the frame from the queue and comes to load buffer 2. -/
theorem run_send_sendto_irq :
    ((booted ⟨fun _ => 0⟩ fun _ => .bare 0).run anyStep
      (.call (.send (.bare 0x123)) :: List.replicate 15 .client ++
        .call (.sendto 2 (.bare 0x456)) :: List.replicate 10 .client ++
          .irq (.bare 0) :: List.replicate 7 .handler)).map
      (fun s => (s.driver.chip.requested 2, nextLoad s.handler)) = some (true, some 2) := rfl

/-- A frame that `can_sendto` has requested is overwritten. -/
theorem requested_frame_overwritten :
    ¬ ∀ s, Transition.Reachable Step Unloaded s → ∀ i, s.Loads i →
      s.driver.chip.requested i = false ∧ s.history.loaded i = none := by
  intro h
  obtain ⟨s, hrun, hs⟩ := Option.map_eq_some_iff.1 run_send_sendto_irq
  obtain ⟨hreq, hload⟩ := Prod.mk.inj hs
  have hfree := (h s (reachable_of_run step_of_anyStep hrun (.of_init unloaded_booted)) 2
    (.inl hload)).1
  rw [hreq] at hfree
  cases hfree

end System

end Can
end Tk1Bsp
