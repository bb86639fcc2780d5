import Mathlib.Data.List.GetD
import Tk1Bsp.Can.Codec

/-!
# The arrays of `load_txb` and `recv_rxb`

The two functions copy a frame between the array `data` of the frame and the array `buf` on the
stack, and the length of the copy comes from a client or from the bus.  Here they are programs over
accesses to the arrays (`MemOp`), in the order of the source.  An access outside of an array has no
meaning, so a program that makes one has no result; the operations it performed until then are its
trace.  Where all accesses are inside, the programs do what `loadTxb` and `recvRxb` do.
-/

namespace Tk1Bsp
namespace Can

/-- `MAX_BUF_LEN`. -/
def maxBufLen : ℕ := 13

/-- `CAN_MAX_DLC`. -/
def canMaxDlc : ℕ := 8

/-- `DAT`. -/
def dat : ℕ := 5

/-! ## Arrays -/

/-- The arrays: `buf`, and `frame->data`. -/
inductive Arr
  | buf
  | data
  deriving DecidableEq

/-- The length of an array. -/
def Arr.size : Arr → ℕ
  | .buf => maxBufLen
  | .data => canMaxDlc

/-- An access to an array, or an operation of the driver. -/
inductive MemOp
  | load (a : Arr) (k : ℕ)
  | store (a : Arr) (k : ℕ) (v : BitVec 8)
  | io (o : Op)

/-- What an operation returns. -/
@[reducible] def MemAns : MemOp → Type
  | .load _ _ => BitVec 8
  | .store _ _ _ => Unit
  | .io o => Ans o

/-- The arrays beside the state of the driver. -/
structure Memory where
  array : Arr → ℕ → BitVec 8
  driver : Driver

/-- Store a byte. -/
def Memory.put (m : Memory) (a : Arr) (k : ℕ) (v : BitVec 8) : Memory :=
  { m with array := Function.update m.array a (Function.update (m.array a) k v) }

/-- The memory with the payload of a frame in `frame->data`. -/
def Memory.hold (m : Memory) (frame : CanFrame) : Memory :=
  { m with array := Function.update m.array .data fun k =>
      if h : k < canMaxDlc then frame.data.get ⟨k, h⟩ else m.array .data k }

/-- The meaning of the operations. -/
def memExec : (o : MemOp) → Memory → Option (MemAns o × Memory)
  | .load a k, m => if k < a.size then some (m.array a k, m) else none
  | .store a k v, m => if k < a.size then some ((), m.put a k v) else none
  | .io o, m => (exec o m.driver).map fun rd => (rd.1, { m with driver := rd.2 })

/-- Programs over the arrays. -/
abbrev MemIo := Prog MemOp MemAns

/-- Perform an operation. -/
def memOp (o : MemOp) : MemIo (MemAns o) := Prog.perform o

/-- Store bytes in sequence. -/
def storeAll (a : Arr) : ℕ → List (BitVec 8) → MemIo Unit
  | _, [] => return
  | k, v :: vs => do
      memOp (.store a k v)
      storeAll a (k + 1) vs

/-- Load bytes in sequence. -/
def loadAll (a : Arr) : ℕ → ℕ → MemIo (List (BitVec 8))
  | _, 0 => return []
  | k, n + 1 => do
      let v ← memOp (.load a k)
      let vs ← loadAll a (k + 1) n
      return v :: vs

/-- `memcpy(dst + i, src + j, n)`. -/
def memcpy (dst src : Arr) : ℕ → ℕ → ℕ → MemIo Unit
  | _, _, 0 => return
  | i, j, n + 1 => do
      let v ← memOp (.load src j)
      memOp (.store dst i v)
      memcpy dst src (i + 1) (j + 1) n

/-! ## The copies -/

/-- The accesses of `load_txb`, up to the bytes that `mcp2515_load_txb` reads from `buf`. -/
def fillBuf (frame : CanFrame) : MemIo (List (BitVec 8)) := do
  storeAll .buf 0 (List.replicate maxBufLen 0)
  storeAll .buf 0 (frameHeader frame)
  memcpy .buf .data dat 0 frame.dlc.toNat
  loadAll .buf 0 (frame.dlc.toNat + dat)

/-- `load_txb`. -/
def loadTxbArrays (txbIdx : ℤ) (frame : CanFrame) : MemIo Unit := do
  let bytes ← fillBuf frame
  let mask := (BitVec.ofInt 8 txbIdx * 2) ||| 0
  let _ ← memOp (.io (.spi ((0x40 ||| mask) :: bytes) 0))
  let _ ← memOp (.io (.spi [0x05, txbctrl txbIdx, txbctrlTxpMask, frame.prio.setWidth 8] 0))

/-- The identifier in `recv_rxb`. -/
def loadId (sid : BitVec 32) (exide : Bool) : MemIo (BitVec 32) :=
  if exide then do
    let sidl ← memOp (.load .buf 1)
    let eid8 ← memOp (.load .buf 2)
    let eid0 ← memOp (.load .buf 3)
    let eid := (sidl &&& 0x3).setWidth 32 <<< 16 ||| eid8.setWidth 32 <<< 8 ||| eid0.setWidth 32
    return sid <<< canEidBits ||| eid
  else return sid

/-- The length in `recv_rxb`. -/
def loadDlc (rtr : Bool) : MemIo (BitVec 4) :=
  if rtr then return 0
  else do
    let dlc ← memOp (.load .buf 4)
    return dlc.setWidth 4

/-- The accesses of `recv_rxb` to `buf` before it copies the payload: what it stores in the
identifier and the length of the frame. -/
def loadHeader : MemIo (CanId × BitVec 4) := do
  let sidh ← memOp (.load .buf 0)
  let sidl ← memOp (.load .buf 1)
  let flags ← memOp (.load .buf 1)
  let exide := flags.getLsbD 3
  let id ← loadId (sidh.setWidth 32 <<< 3 ||| sidl.setWidth 32 >>> 5) exide
  let length ← memOp (.load .buf 4)
  let rtr := length.getLsbD 6
  let dlc ← loadDlc rtr
  return (⟨id.setWidth 29, exide, rtr⟩, dlc)

/-- `recv_rxb`.  The index of the buffer does not reach the instruction. -/
def recvRxbArrays (_rxbIdx : ℤ) : MemIo (CanId × BitVec 4) := do
  let bytes ← memOp (.io (.spi [0x90 ||| 0] maxBufLen))
  storeAll .buf 0 bytes
  let header ← loadHeader
  memcpy .data .buf 0 dat header.2.toNat
  return header

/-! ## Runs -/

/-- The access is inside of its array, and a transmit buffer is loaded with at most 13 bytes. -/
def MemOp.InBounds : MemOp → Prop
  | .load a k => k < a.size
  | .store a k _ => k < a.size
  | .io (.spi txbuf _) => txbuf.length ≤ 1 + maxBufLen
  | .io _ => True

/-- An access to an array. -/
inductive MemOp.Access : MemOp → Prop
  | load (a : Arr) (k : ℕ) : Access (.load a k)
  | store (a : Arr) (k : ℕ) (v : BitVec 8) : Access (.store a k v)

/-- An access can be performed exactly if it is in bounds. -/
theorem MemOp.Access.isSome_iff {o : MemOp} (h : o.Access) (m : Memory) :
    (memExec o m).isSome ↔ o.InBounds := by
  cases h with
  | load a k | store a k v =>
      simp only [memExec, InBounds]
      split <;> simp_all

section Runs

open Prog

variable {m : Memory} {a : Arr}

theorem run_memOp {o : MemOp} {r : MemAns o} {m' : Memory} (h : memExec o m = some (r, m')) {α : Type}
    (f : MemAns o → MemIo α) : ((memOp o).bind f).run memExec m = (f r).run memExec m' :=
  run_call_of_exec h

theorem run_memOp_none {o : MemOp} (h : memExec o m = none) {α : Type} (f : MemAns o → MemIo α) :
    ((memOp o).bind f).run memExec m = none := run_call_of_none h

theorem run_storeAll {k : ℕ} {vs : List (BitVec 8)} (h : k + vs.length ≤ a.size) :
    (storeAll a k vs).run memExec m = some ((), { m with
      array := Function.update m.array a fun n =>
        if k ≤ n ∧ n < k + vs.length then vs.getD (n - k) 0 else m.array a n }) := by
  induction vs generalizing k m with
  | nil =>
      have hself : (fun n => if k ≤ n ∧ n < k + ([] : List (BitVec 8)).length then
          ([] : List (BitVec 8)).getD (n - k) 0 else m.array a n) = m.array a := by
        funext n
        exact if_neg (by simp only [List.length_nil]; omega)
      rw [hself, Function.update_eq_self]
      simp only [storeAll, pure_eq, run_ret]
  | cons v vs ih =>
      rw [List.length_cons] at h
      have hk : k < a.size := by omega
      have hexec : memExec (.store a k v) m = some ((), m.put a k v) := if_pos hk
      refine (run_memOp hexec _).trans ((ih (show k + 1 + vs.length ≤ a.size by omega)).trans ?_)
      have harray : (fun n => if k + 1 ≤ n ∧ n < k + 1 + vs.length then vs.getD (n - (k + 1)) 0
            else (m.put a k v).array a n) =
          fun n => if k ≤ n ∧ n < k + (v :: vs).length then (v :: vs).getD (n - k) 0
            else m.array a n := by
        funext n
        simp only [Memory.put, Function.update_self, List.length_cons]
        by_cases hn : n = k
        · subst hn
          simp
        · rw [Function.update_of_ne hn]
          by_cases hin : k + 1 ≤ n ∧ n < k + 1 + vs.length
          · have hsub : n - k = (n - (k + 1)) + 1 := by omega
            rw [if_pos hin, if_pos (by omega), hsub, List.getD_cons_succ]
          · rw [if_neg hin, if_neg (by omega)]
      rw [harray]
      simp only [Memory.put, Function.update_idem]

theorem run_loadAll {k n : ℕ} (h : k + n ≤ a.size) :
    (loadAll a k n).run memExec m = some ((List.range' k n).map (m.array a), m) := by
  induction n generalizing k with
  | zero => rfl
  | succ n ih =>
      have hk : k < a.size := by omega
      have hexec : memExec (.load a k) m = some (m.array a k, m) := if_pos hk
      refine (run_memOp hexec _).trans ?_
      rw [bind_eq, run_bind, ih (show k + 1 + n ≤ a.size by omega)]
      rfl

/-- `memcpy` between two arrays has a meaning exactly when it stays inside of both. -/
theorem run_memcpy {dst src : Arr} (hne : dst ≠ src) {i j n : ℕ} (hi : i ≤ dst.size)
    (hj : j ≤ src.size) :
    (memcpy dst src i j n).run memExec m =
      if i + n ≤ dst.size ∧ j + n ≤ src.size then
        some ((), { m with
          array := Function.update m.array dst fun k =>
            if i ≤ k ∧ k < i + n then m.array src (j + (k - i)) else m.array dst k })
      else none := by
  induction n generalizing i j m with
  | zero =>
      have hself : (fun k => if i ≤ k ∧ k < i + 0 then m.array src (j + (k - i))
          else m.array dst k) = m.array dst := by
        funext k
        exact if_neg (by omega)
      rw [if_pos ⟨hi, hj⟩, hself, Function.update_eq_self]
      rfl
  | succ n ih =>
      by_cases hin : i < dst.size ∧ j < src.size
      · have hload : memExec (.load src j) m = some (m.array src j, m) := if_pos hin.2
        have hstore : memExec (.store dst i (m.array src j)) m =
            some ((), m.put dst i (m.array src j)) := if_pos hin.1
        refine (run_memOp hload _).trans ((run_memOp hstore _).trans ?_)
        rw [ih hin.1 hin.2]
        have harray : (fun k => if i + 1 ≤ k ∧ k < i + 1 + n then
              (m.put dst i (m.array src j)).array src (j + 1 + (k - (i + 1)))
              else (m.put dst i (m.array src j)).array dst k) =
            fun k => if i ≤ k ∧ k < i + (n + 1) then m.array src (j + (k - i))
              else m.array dst k := by
          funext k
          simp only [Memory.put, Function.update_self, Function.update_of_ne hne.symm]
          by_cases hk : k = i
          · subst hk
            simp
          · rw [Function.update_of_ne hk]
            by_cases hmid : i + 1 ≤ k ∧ k < i + 1 + n
            · have hsub : j + 1 + (k - (i + 1)) = j + (k - i) := by omega
              rw [if_pos hmid, if_pos (by omega), hsub]
            · rw [if_neg hmid, if_neg (by omega)]
        rw [harray]
        simp only [Memory.put, Function.update_idem]
        by_cases hfit : i + 1 + n ≤ dst.size ∧ j + 1 + n ≤ src.size
        · rw [if_pos hfit, if_pos (by omega)]
        · rw [if_neg hfit, if_neg (by omega)]
      · rw [if_neg (by omega)]
        by_cases hsrc : j < src.size
        · have hload : memExec (.load src j) m = some (m.array src j, m) := if_pos hsrc
          have hstore : memExec (.store dst i (m.array src j)) m = none := if_neg (by omega)
          exact (run_memOp hload _).trans (run_memOp_none hstore _)
        · have hload : memExec (.load src j) m = none := if_neg hsrc
          exact run_memOp_none hload _

/-- Loading from `buf` below its end. -/
theorem memExec_load {k : ℕ} (hk : k < 13) (m : Memory) :
    memExec (.load .buf k) m = some (m.array .buf k, m) := if_pos hk

theorem run_loadId (sid : BitVec 32) (exide : Bool) :
    (loadId sid exide).run memExec m = some (if exide then
      sid <<< canEidBits ||| ((m.array .buf 1 &&& 0x3).setWidth 32 <<< 16 |||
        (m.array .buf 2).setWidth 32 <<< 8 ||| (m.array .buf 3).setWidth 32) else sid, m) := by
  cases exide with
  | false => rfl
  | true =>
      refine (run_memOp (memExec_load (show 1 < 13 by decide) m) _).trans ?_
      refine (run_memOp (memExec_load (show 2 < 13 by decide) m) _).trans ?_
      exact run_memOp (memExec_load (show 3 < 13 by decide) m) _

theorem run_loadDlc (rtr : Bool) :
    (loadDlc rtr).run memExec m = some (if rtr then 0 else (m.array .buf 4).setWidth 4, m) := by
  cases rtr with
  | true => rfl
  | false => exact run_memOp (memExec_load (show 4 < 13 by decide) m) _

/-- The header that `recv_rxb` stores is that of the decoded frame. -/
theorem run_loadHeader {bytes : List (BitVec 8)} (h : ∀ k < 13, m.array .buf k = bytes.getD k 0)
    (frame : CanFrame) : loadHeader.run memExec m =
      some (((decodeFrame bytes frame).ident, (decodeFrame bytes frame).dlc), m) := by
  refine (run_memOp (memExec_load (show 0 < 13 by decide) m) _).trans ?_
  refine (run_memOp (memExec_load (show 1 < 13 by decide) m) _).trans ?_
  refine (run_memOp (memExec_load (show 1 < 13 by decide) m) _).trans ?_
  rw [bind_eq, run_bind, run_loadId]
  refine (run_memOp (memExec_load (show 4 < 13 by decide) m) _).trans ?_
  rw [bind_eq, run_bind, run_loadDlc]
  simp only [h 0 (by decide), h 1 (by decide), h 2 (by decide), h 3 (by decide), h 4 (by decide)]
  rfl

/-! ## Traces -/

theorem every_storeAll (a : Arr) (k : ℕ) (vs : List (BitVec 8)) :
    (storeAll a k vs).Every MemOp.Access := by
  induction vs generalizing k with
  | nil => trivial
  | cons v vs ih => exact (every_perform (.store a k v)).bind fun _ => ih (k + 1)

theorem every_loadAll (a : Arr) (k n : ℕ) : (loadAll a k n).Every MemOp.Access := by
  induction n generalizing k with
  | zero => trivial
  | succ n ih => exact (every_perform (.load a k)).bind fun _ => (ih (k + 1)).bind fun _ => trivial

theorem every_memcpy (dst src : Arr) (i j n : ℕ) : (memcpy dst src i j n).Every MemOp.Access := by
  induction n generalizing i j with
  | zero => trivial
  | succ n ih =>
      exact (every_perform (.load src j)).bind fun v =>
        (every_perform (.store dst i v)).bind fun _ => ih (i + 1) (j + 1)

theorem every_fillBuf (frame : CanFrame) : (fillBuf frame).Every MemOp.Access :=
  (every_storeAll _ _ _).bind fun _ => (every_storeAll _ _ _).bind fun _ =>
    (every_memcpy _ _ _ _ _).bind fun _ => every_loadAll _ _ _

theorem every_loadId (sid : BitVec 32) (exide : Bool) : (loadId sid exide).Every MemOp.Access := by
  unfold loadId
  split
  · exact (every_perform (.load _ _)).bind fun _ => (every_perform (.load _ _)).bind fun _ =>
      (every_perform (.load _ _)).bind fun _ => trivial
  · trivial

theorem every_loadDlc (rtr : Bool) : (loadDlc rtr).Every MemOp.Access := by
  unfold loadDlc
  split
  · trivial
  · exact (every_perform (.load _ _)).bind fun _ => trivial

theorem every_loadHeader : loadHeader.Every MemOp.Access :=
  (every_perform (.load _ _)).bind fun _ => (every_perform (.load _ _)).bind fun _ =>
    (every_perform (.load _ _)).bind fun _ => (every_loadId _ _).bind fun _ =>
      (every_perform (.load _ _)).bind fun _ => (every_loadDlc _).bind fun _ => trivial

/-- A run of accesses is in bounds exactly if it comes to its end. -/
theorem inBounds_iff_of_access {α : Type} {p : MemIo α} (hp : p.Every MemOp.Access) :
    (∀ o ∈ p.trace memExec m, o.InBounds) ↔ (p.run memExec m).isSome := by
  constructor
  · exact run_isSome_of_trace (hp.mono fun o ho m => (ho.isSome_iff m).2)
  · intro h
    obtain ⟨rm, hrun⟩ := Option.isSome_iff_exists.1 h
    refine forall_trace_of_run (hp.mono fun o ho m rm hexec => ?_) hrun
    exact (ho.isSome_iff m).1 (Option.isSome_iff_exists.2 ⟨rm, hexec⟩)

/-- The part of `recv_rxb` after the transaction. -/
theorem run_decode {bytes : List (BitVec 8)} (hlen : bytes.length = maxBufLen) (frame : CanFrame) :
    ((storeAll .buf 0 bytes).bind fun _ => loadHeader.bind fun header =>
      (memcpy .data .buf 0 dat header.2.toNat).bind fun _ => .ret header).run memExec m =
      if (decodeFrame bytes frame).dlc.toNat ≤ 8 then
        some (((decodeFrame bytes frame).ident, (decodeFrame bytes frame).dlc),
          { m with array := fun
            | .buf => fun k => if k < 13 then bytes.getD k 0 else m.array .buf k
            | .data => fun k => if k < (decodeFrame bytes frame).dlc.toNat then
                bytes.getD (5 + k) 0 else m.array .data k })
      else none := by
  have hfits : 0 + bytes.length ≤ Arr.size .buf := Nat.le_of_eq ((Nat.zero_add _).trans hlen)
  rw [run_bind, run_storeAll hfits, Option.bind_some, run_bind, @run_loadHeader _ bytes ?_ frame,
    Option.bind_some, run_bind]
  · rw [run_memcpy (by decide) (Nat.zero_le _) (by decide)]
    by_cases hdlc : (decodeFrame bytes frame).dlc.toNat ≤ 8
    · have hboth : 0 + (decodeFrame bytes frame).dlc.toNat ≤ Arr.size .data ∧
          dat + (decodeFrame bytes frame).dlc.toNat ≤ Arr.size .buf := by
        simp only [Arr.size, maxBufLen, canMaxDlc, dat]
        omega
      rw [if_pos hdlc, if_pos hboth]
      refine congrArg (fun array => some (_, { m with array := array })) ?_
      funext a k
      cases a with
      | buf => simp [hlen, maxBufLen]
      | data =>
          by_cases hk : k < (decodeFrame bytes frame).dlc.toNat
          · have hlt : 5 + k < maxBufLen := by
              simp only [maxBufLen]
              omega
            simp [hlen, hk, hlt, dat]
          · simp [hk]
    · have hneg : ¬ (0 + (decodeFrame bytes frame).dlc.toNat ≤ Arr.size .data ∧
          dat + (decodeFrame bytes frame).dlc.toNat ≤ Arr.size .buf) := by
        simp only [Arr.size, maxBufLen, canMaxDlc, dat]
        omega
      rw [if_neg hdlc, if_neg hneg]
      rfl
  · intro k hk
    have hlt : k < maxBufLen := hk
    simp [hlen, hlt]

theorem hold_data (m : Memory) (frame : CanFrame) {k : ℕ} (hk : k < 8) :
    (m.hold frame).array .data k = frame.data.get ⟨k, hk⟩ := by
  simp only [Memory.hold, Function.update_self]
  exact dif_pos hk

/-- The bytes that `load_txb` hands over are the image of the frame, if there is a result. -/
theorem run_fillBuf (frame : CanFrame) (m : Memory) :
    if frame.dlc.toNat ≤ 8 then
      ∃ array, (fillBuf frame).run memExec (m.hold frame) =
        some (frame.image, { m with array := array })
    else (fillBuf frame).run memExec (m.hold frame) = none := by
  have hzero : 0 + (List.replicate maxBufLen (0 : BitVec 8)).length ≤ Arr.size .buf := by decide
  have hheader : 0 + (frameHeader frame).length ≤ Arr.size .buf := by
    rw [length_frameHeader]
    decide
  rw [fillBuf, bind_eq, run_bind, run_storeAll hzero, Option.bind_some, bind_eq, run_bind,
    run_storeAll hheader, Option.bind_some, bind_eq, run_bind,
    run_memcpy (by decide) (by decide) (Nat.zero_le _)]
  by_cases hdlc : frame.dlc.toNat ≤ 8
  · have hboth : dat + frame.dlc.toNat ≤ Arr.size .buf ∧ 0 + frame.dlc.toNat ≤ Arr.size .data := by
      simp only [Arr.size, maxBufLen, canMaxDlc, dat]
      omega
    have hload : 0 + (frame.dlc.toNat + dat) ≤ Arr.size .buf := by omega
    rw [if_pos hdlc, if_pos hboth, Option.bind_some, run_loadAll hload]
    refine ⟨_, congrArg (fun bytes => some (bytes, _)) (List.ext_getElem ?_ ?_)⟩
    · rw [List.length_map, List.length_range', length_image frame hdlc, dat, Nat.add_comm]
    · intro k hk hk'
      rw [length_image frame hdlc] at hk'
      rw [← List.getD_eq_getElem frame.image 0, List.getElem_map, List.getElem_range']
      simp only [Nat.zero_add, Nat.one_mul, Function.update_self]
      by_cases h5 : k < 5
      · have hheader : k < (frameHeader frame).length := h5
        have hout : ¬ (dat ≤ k ∧ k < dat + frame.dlc.toNat) := fun h => absurd h.1 (Nat.not_le.2 h5)
        rw [if_neg hout, CanFrame.image, List.getD_append _ _ _ _ hheader]
        exact if_pos ⟨Nat.zero_le k, hheader⟩
      · have hcopied : dat ≤ k ∧ k < dat + frame.dlc.toNat := by
          simp only [dat]
          omega
        have hlt : k - 5 < 8 := by omega
        have hsum : 5 + (k - 5) = k := by omega
        have hdata := @getD_image_data frame ⟨k - 5, hlt⟩ (by simp only; omega)
        simp only [hsum] at hdata
        rw [if_pos hcopied, hdata, Function.update_of_ne (by decide), Function.update_of_ne (by decide)]
        exact hold_data m frame hlt
  · have hneg : ¬ (dat + frame.dlc.toNat ≤ Arr.size .buf ∧
        0 + frame.dlc.toNat ≤ Arr.size .data) := by
      simp only [Arr.size, maxBufLen, canMaxDlc, dat]
      omega
    rw [if_neg hdlc, if_neg hneg]
    rfl

/-- The transaction of `recv_rxb`. -/
theorem memExec_readRxb (m : Memory) :
    memExec (.io (.spi [0x90 ||| 0] maxBufLen)) m = some (m.driver.chip.rxbImage 0,
      { m with driver := { m.driver with chip := (m.driver.chip.spi [0x90 ||| 0] 13).2 } }) := by
  rw [← readFrom_rxb]
  rfl

theorem length_rxbImage (c : Chip) (n : Fin 2) : (c.rxbImage n).length = maxBufLen := by
  rw [Chip.rxbImage, List.length_map, List.length_range, maxBufLen]

/-- `recv_rxb` on arrays stores the frame of `recvRxb`, or both have no result. -/
theorem run_recvRxbArrays (rxbIdx : ℤ) (frame : CanFrame) (m : Memory) :
    match (recvRxb rxbIdx frame).run exec m.driver with
    | none => (recvRxbArrays rxbIdx).run memExec (m.hold frame) = none
    | some (f, d) => ∃ array, (recvRxbArrays rxbIdx).run memExec (m.hold frame) =
        some ((f.ident, f.dlc), ⟨array, d⟩) ∧ ∀ k : Fin 8, array .data k = f.data.get k := by
  have hrun := (run_memOp (memExec_readRxb (m.hold frame)) fun bytes =>
    (storeAll .buf 0 bytes).bind fun _ => loadHeader.bind fun header =>
      (memcpy .data .buf 0 dat header.2.toNat).bind fun _ => .ret header).trans
    (run_decode (length_rxbImage _ _) frame)
  rw [run_recvRxb]
  split
  · rename_i hnone
    split at hnone
    · cases hnone
    · rename_i hdlc
      exact hrun.trans (if_neg hdlc)
  · rename_i f d hsome
    split at hsome
    · rename_i hdlc
      obtain ⟨rfl, rfl⟩ := Prod.mk.inj (Option.some.inj hsome)
      refine ⟨_, hrun.trans (if_pos hdlc), fun k => ?_⟩
      rw [data_decodeFrame]
      split
      · exact if_pos ‹_›
      · exact (if_neg ‹_›).trans (hold_data m frame k.isLt)
    · cases hsome

/-- `load_txb` on arrays does what `loadTxb` does, or both have no result. -/
theorem run_loadTxbArrays (i : Fin 3) (frame : CanFrame) (m : Memory) :
    match (loadTxb i frame).run exec m.driver with
    | none => (loadTxbArrays i frame).run memExec (m.hold frame) = none
    | some (_, d) => ∃ array,
        (loadTxbArrays i frame).run memExec (m.hold frame) = some ((), ⟨array, d⟩) := by
  have hfill := run_fillBuf frame m
  by_cases hdlc : frame.dlc.toNat ≤ 8
  · rw [if_pos hdlc] at hfill
    obtain ⟨array, hfill⟩ := hfill
    rw [run_loadTxb i hdlc]
    refine ⟨array, ?_⟩
    rw [loadTxbArrays, bind_eq, run_bind, hfill]
    rfl
  · rw [if_neg hdlc] at hfill
    rw [loadTxb, if_neg hdlc]
    show (loadTxbArrays i frame).run memExec (m.hold frame) = none
    rw [loadTxbArrays, bind_eq, run_bind, hfill]
    rfl

/-! ## The bounds -/

/-- The data length that `recv_rxb` computes is at most 8. -/
theorem dlc_decodeFrame_le_iff (r : List (BitVec 8)) (frame : CanFrame) :
    (decodeFrame r frame).dlc.toNat ≤ 8 ↔
      (r.getD 4 0).getLsbD 6 = true ∨ ((r.getD 4 0).setWidth 4 : BitVec 4).toNat ≤ 8 := by
  show (if (r.getD 4 0).getLsbD 6 then (0 : BitVec 4) else (r.getD 4 0).setWidth 4).toNat ≤ 8 ↔ _
  cases (r.getD 4 0).getLsbD 6 <;> simp

theorem inBounds_recvRxbArrays_iff (rxbIdx : ℤ) (m : Memory) :
    (∀ o ∈ (recvRxbArrays rxbIdx).trace memExec m, o.InBounds) ↔
      (m.driver.chip.rxb 0 4).getLsbD 6 = true ∨
        ((m.driver.chip.rxb 0 4).setWidth 4 : BitVec 4).toNat ≤ 8 := by
  have hrest : ∀ bytes, ((storeAll .buf 0 bytes).bind fun _ => loadHeader.bind fun header =>
      (memcpy .data .buf 0 dat header.2.toNat).bind fun _ => .ret header).Every MemOp.Access :=
    fun bytes => (every_storeAll _ _ _).bind fun _ => every_loadHeader.bind fun header =>
      (every_memcpy _ _ _ _ _).bind fun _ => trivial
  have hread : (memOp (.io (.spi [0x90 ||| 0] maxBufLen))).Every MemOp.InBounds :=
    every_perform (show 1 ≤ 1 + maxBufLen by decide)
  have hlen := length_rxbImage m.driver.chip 0
  rw [← getD_rxbImage _ _ (show 4 < 13 by decide), ← dlc_decodeFrame_le_iff _ (.bare 0)]
  refine forall_trace_bind.trans ⟨fun h => ?_, fun h => ⟨hread.forall_trace m, ?_⟩⟩
  · have hsome := (inBounds_iff_of_access (hrest _)).1 (h.2 _ _ (memExec_readRxb m))
    rw [run_decode hlen (.bare 0)] at hsome
    split at hsome
    · assumption
    · cases hsome
  · intro bytes m' hrun
    cases (memExec_readRxb m).symm.trans hrun
    refine (inBounds_iff_of_access (hrest _)).2 ?_
    rw [run_decode hlen (.bare 0), if_pos h]
    rfl

theorem inBounds_loadTxbArrays_iff (txbIdx : ℤ) (frame : CanFrame) (m : Memory) :
    (∀ o ∈ (loadTxbArrays txbIdx frame).trace memExec (m.hold frame), o.InBounds) ↔
      frame.dlc.toNat ≤ 8 := by
  have hfill := run_fillBuf frame m
  refine forall_trace_bind.trans ⟨fun h => ?_, fun h => ?_⟩
  · have hsome := (inBounds_iff_of_access (every_fillBuf frame)).1 h.1
    by_contra hdlc
    rw [if_neg hdlc] at hfill
    rw [hfill] at hsome
    cases hsome
  · rw [if_pos h] at hfill
    obtain ⟨array, hfill⟩ := hfill
    refine ⟨(inBounds_iff_of_access (every_fillBuf frame)).2 (hfill ▸ rfl), fun bytes m' hrun => ?_⟩
    obtain ⟨rfl, rfl⟩ := Prod.mk.inj (Option.some.inj (hfill.symm.trans hrun))
    have hlen : frame.image.length ≤ maxBufLen := by
      rw [length_image frame h, maxBufLen]
      omega
    have hevery : ((memOp (.io (.spi ((0x40 ||| (BitVec.ofInt 8 txbIdx * 2 ||| 0)) :: frame.image) 0))).bind
        fun _ => (memOp (.io (.spi [0x05, txbctrl txbIdx, txbctrlTxpMask, frame.prio.setWidth 8] 0))).bind
          fun _ => .ret ()).Every MemOp.InBounds := by
      refine (every_perform ?_).bind fun _ => (every_perform ?_).bind fun _ => trivial
      · show frame.image.length + 1 ≤ 1 + maxBufLen
        omega
      · show 4 ≤ 1 + maxBufLen
        decide
    exact hevery.forall_trace _

/-- The accesses of `recv_rxb` stay inside of the arrays exactly if the length from the bus is at
most 8 or belongs to a remote frame, and those of `load_txb` exactly if the length from the client
is at most 8. -/
theorem frame_copies_in_bounds_iff (rxbIdx txbIdx : ℤ) (frame : CanFrame) (m : Memory) :
    ((∀ o ∈ (recvRxbArrays rxbIdx).trace memExec m, o.InBounds) ↔
      (m.driver.chip.rxb 0 4).getLsbD 6 = true ∨
        ((m.driver.chip.rxb 0 4).setWidth 4 : BitVec 4).toNat ≤ 8) ∧
    ((∀ o ∈ (loadTxbArrays txbIdx frame).trace memExec (m.hold frame), o.InBounds) ↔
      frame.dlc.toNat ≤ 8) :=
  ⟨inBounds_recvRxbArrays_iff rxbIdx m, inBounds_loadTxbArrays_iff txbIdx frame m⟩

/-- Receive buffer 0 holds a message with a data length code of 9. -/
def nineBytes : Memory where
  array _ _ := 0
  driver := (System.booted ⟨fun a => if a.val = 0x65 then 9 else 0⟩ fun _ => .bare 0).driver

/-- A length of 9 leads out of `buf` on reception, and out of `data` on transmission. -/
theorem not_in_bounds_length_nine :
    (¬ ∀ o ∈ (recvRxbArrays 0).trace memExec nineBytes, o.InBounds) ∧
      ¬ ∀ o ∈ (loadTxbArrays 0 { CanFrame.bare 0 with dlc := 9 }).trace memExec
        (nineBytes.hold { CanFrame.bare 0 with dlc := 9 }), o.InBounds := by
  have hrecv : MemOp.load .buf 13 ∈ (recvRxbArrays 0).trace memExec nineBytes :=
    List.mem_of_getElem? (show _[35]? = _ from rfl)
  have hload : MemOp.load .data 8 ∈ (loadTxbArrays 0 { CanFrame.bare 0 with dlc := 9 }).trace
      memExec (nineBytes.hold { CanFrame.bare 0 with dlc := 9 }) :=
    List.mem_of_getElem? (show _[34]? = _ from rfl)
  exact ⟨fun h => Nat.lt_irrefl 13 (h _ hrecv), fun h => Nat.lt_irrefl 8 (h _ hload)⟩

end Runs

end Can
end Tk1Bsp
