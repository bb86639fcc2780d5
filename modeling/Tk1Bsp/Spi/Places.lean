import Tk1Bsp.Spi.System

/-!
# Where the threads are

The programs of the SPI component and the command of a CAN thread are short and nearly straight, so
that what is left of each of them has a name: a place, and the program that is left there (`rest`).
`Moves` lists the steps from place to place with their effect on the state.  For each of the three
kinds of thread, the operations of the program are the moves of its place (`moves_of_exec`), and
each move is an operation (`exec_of_moves`).  From here on the programs are not unfolded again.
-/

namespace Tk1Bsp
namespace Spi

theorem exec_lock {code : ℤ} {d : Component} {rd : Unit × Component}
    (h : exec code .spiMutexLock d = some rd) :
    d.spiMutex = false ∧ rd.2 = { d with spiMutex := true } := by
  simp only [exec] at h
  split at h
  · cases h
  · rename_i hfree
    obtain rfl := Option.some.inj h
    exact ⟨Bool.eq_false_of_not_eq_true hfree, rfl⟩

theorem exec_lock_of_free {code : ℤ} {d : Component} (h : d.spiMutex = false) :
    exec code .spiMutexLock d = some ((), { d with spiMutex := true }) := by
  simp only [exec, h, Bool.false_eq_true, if_false]

/-! ## The thread that serves the calls -/

/-- Where a call with the bytes of the port is. -/
inductive ServerAt
  | asked
  | other
  | prepared
  | ready
  | locked
  | issued (ret : ℤ)
  | waiting
  | woken
  | finished (ret : ℤ)

namespace ServerAt

/-- What is left of `spi_transfer`. -/
def rest (wcount rcount : ℕ) : ServerAt → Io ℤ
  | asked => doSpiTransfer canSlave .port wcount rcount
  | other => do
      op (.spiPrepareTransfer canSlave.cfg)
      op (.setCurSlaveId canSlave.id)
      beginTransfer .port wcount rcount
  | prepared => do
      op (.setCurSlaveId canSlave.id)
      beginTransfer .port wcount rcount
  | ready => beginTransfer .port wcount rcount
  | locked => do
      let ret ← op (.spiXfer .port wcount rcount)
      op .spiMutexUnlock
      awaitStatus ret
  | issued ret => do
      op .spiMutexUnlock
      awaitStatus ret
  | waiting => do
      op .busSemWait
      op .getStatus
  | woken => op .getStatus
  | finished ret => return ret

/-- The steps of the thread, where the bus driver answers with `code`. -/
inductive Moves (code : ℤ) (wcount rcount : ℕ) (d : Component) :
    ServerAt → ServerAt → Component → Prop
  | same (hcur : d.curSlaveId = canAppId) : Moves code wcount rcount d asked ready d
  | other (hcur : d.curSlaveId ≠ canAppId) : Moves code wcount rcount d asked other d
  | prepare : Moves code wcount rcount d other prepared { d with cfg := some canSlave.cfg }
  | choose : Moves code wcount rcount d prepared ready { d with curSlaveId := canAppId }
  | lock (hfree : d.spiMutex = false) :
      Moves code wcount rcount d ready locked { d with spiMutex := true }
  | refuse (hcode : code < 0) : Moves code wcount rcount d locked (issued code) d
  | start (hcode : 0 ≤ code) (hbus : d.bus = .idle) (hsize : wcount + rcount ≤ spiTransMaxSize) :
      Moves code wcount rcount d locked (issued code)
        { d with bus := .shifting .port wcount rcount }
  | unlock {ret : ℤ} (hret : 0 ≤ ret) :
      Moves code wcount rcount d (issued ret) waiting { d with spiMutex := false }
  | giveUp {ret : ℤ} (hret : ret < 0) :
      Moves code wcount rcount d (issued ret) (finished ret) { d with spiMutex := false }
  | wake (hsem : d.busSem ≠ 0) :
      Moves code wcount rcount d waiting woken { d with busSem := d.busSem - 1 }
  | finish : Moves code wcount rcount d woken (finished d.status) d

variable {code : ℤ} {wcount rcount : ℕ} {d d' : Component} {a a' : ServerAt}

theorem awaitStatus_of_nonneg {ret : ℤ} (h : 0 ≤ ret) :
    awaitStatus ret = waiting.rest wcount rcount := if_pos h

theorem awaitStatus_of_neg {ret : ℤ} (h : ret < 0) :
    awaitStatus ret = (finished ret).rest wcount rcount := if_neg (Int.not_le.2 h)

theorem moves_of_exec {o : Op} {k : Ans o → Io ℤ} {r : Ans o}
    (hrest : a.rest wcount rcount = .call o k) (hexec : exec code o d = some (r, d')) :
    ∃ a', k r = a'.rest wcount rcount ∧ Moves code wcount rcount d a a' d' := by
  cases a with
  | asked =>
      obtain ⟨cur, hexec, hk⟩ := Prog.exec_of_call_eq hrest hexec
      obtain ⟨rfl, rfl⟩ := Prod.mk.inj (Option.some.inj hexec)
      by_cases hcur : d.curSlaveId = canAppId
      · exact ⟨ready, hk.trans (if_neg (not_not.2 hcur)), .same hcur⟩
      · exact ⟨other, hk.trans (if_pos hcur), .other hcur⟩
  | other =>
      obtain ⟨_, hexec, hk⟩ := Prog.exec_of_call_eq hrest hexec
      obtain ⟨-, rfl⟩ := Prod.mk.inj (Option.some.inj hexec)
      exact ⟨prepared, hk, .prepare⟩
  | prepared =>
      obtain ⟨_, hexec, hk⟩ := Prog.exec_of_call_eq hrest hexec
      obtain ⟨-, rfl⟩ := Prod.mk.inj (Option.some.inj hexec)
      exact ⟨ready, hk, .choose⟩
  | ready =>
      obtain ⟨_, hexec, hk⟩ := Prog.exec_of_call_eq hrest hexec
      obtain ⟨hfree, rfl⟩ := exec_lock hexec
      exact ⟨locked, hk, .lock hfree⟩
  | locked =>
      obtain ⟨ret, hexec, hk⟩ := Prog.exec_of_call_eq hrest hexec
      simp only [exec] at hexec
      split at hexec
      · rename_i hcode
        obtain ⟨rfl, rfl⟩ := Prod.mk.inj (Option.some.inj hexec)
        exact ⟨issued code, hk, .refuse hcode⟩
      · rename_i hcode
        split at hexec
        · rename_i hbus
          split at hexec
          · rename_i hsize
            obtain ⟨rfl, rfl⟩ := Prod.mk.inj (Option.some.inj hexec)
            exact ⟨issued code, hk, .start (Int.not_lt.1 hcode) hbus hsize⟩
          · cases hexec
        · cases hexec
  | issued ret =>
      obtain ⟨_, hexec, hk⟩ := Prog.exec_of_call_eq hrest hexec
      obtain ⟨-, rfl⟩ := Prod.mk.inj (Option.some.inj hexec)
      by_cases hret : 0 ≤ ret
      · exact ⟨waiting, hk.trans (awaitStatus_of_nonneg hret), .unlock hret⟩
      · have hneg := Int.not_le.1 hret
        exact ⟨finished ret, hk.trans (awaitStatus_of_neg hneg), .giveUp hneg⟩
  | waiting =>
      obtain ⟨_, hexec, hk⟩ := Prog.exec_of_call_eq hrest hexec
      simp only [exec] at hexec
      split at hexec
      · cases hexec
      · rename_i hsem
        obtain ⟨-, rfl⟩ := Prod.mk.inj (Option.some.inj hexec)
        exact ⟨woken, hk, .wake hsem⟩
  | woken =>
      obtain ⟨_, hexec, hk⟩ := Prog.exec_of_call_eq hrest hexec
      obtain ⟨rfl, rfl⟩ := Prod.mk.inj (Option.some.inj hexec)
      exact ⟨finished d.status, hk, .finish⟩
  | finished ret => cases hrest

theorem exec_of_moves (h : Moves code wcount rcount d a a' d') :
    ∃ o k r, a.rest wcount rcount = .call o k ∧ exec code o d = some (r, d') ∧
      k r = a'.rest wcount rcount := by
  cases h with
  | same hcur => exact ⟨_, _, _, rfl, rfl, if_neg (not_not.2 hcur)⟩
  | other hcur => exact ⟨_, _, _, rfl, rfl, if_pos hcur⟩
  | prepare => exact ⟨_, _, _, rfl, rfl, rfl⟩
  | choose => exact ⟨_, _, _, rfl, rfl, rfl⟩
  | lock hfree => exact ⟨_, _, (), rfl, exec_lock_of_free hfree, rfl⟩
  | refuse hcode =>
      refine ⟨_, _, code, rfl, ?_, rfl⟩
      simp only [exec, if_pos hcode]
  | start hcode hbus hsize =>
      refine ⟨_, _, code, rfl, ?_, rfl⟩
      simp only [exec, if_neg (Int.not_lt.2 hcode), hbus, if_pos hsize]
  | unlock hret => exact ⟨_, _, (), rfl, rfl, awaitStatus_of_nonneg hret⟩
  | giveUp hret => exact ⟨_, _, (), rfl, rfl, awaitStatus_of_neg hret⟩
  | wake hsem =>
      refine ⟨_, _, (), rfl, ?_, rfl⟩
      simp only [exec, if_neg hsem]
  | finish => exact ⟨_, _, _, rfl, rfl, rfl⟩

end ServerAt

/-! ## The thread that handles the interrupts -/

/-- Where the handler of an interrupt is. -/
inductive InterruptAt
  | idle
  | called
  | entered
  | storing (status : ℤ)
  | posting
  | leaving
  | acknowledging

namespace InterruptAt

/-- What is left of `spi1_int_handle`. -/
def rest : InterruptAt → Io Unit
  | idle => return
  | called => spi1IntHandle
  | entered => do
      let completed ← op .spiHandleIrq
      spiCompleteCallback completed
      op .spiMutexUnlock
      op .spi1IntAcknowledge
  | storing status => do
      op (.setStatus status)
      op .busSemPost
      op .spiMutexUnlock
      op .spi1IntAcknowledge
  | posting => do
      op .busSemPost
      op .spiMutexUnlock
      op .spi1IntAcknowledge
  | leaving => do
      op .spiMutexUnlock
      op .spi1IntAcknowledge
  | acknowledging => op .spi1IntAcknowledge

/-- The steps of the handler, where the bus driver reports the status `code`. -/
inductive Moves (code : ℤ) (d : Component) : InterruptAt → InterruptAt → Component → Prop
  | lock (hfree : d.spiMutex = false) : Moves code d called entered { d with spiMutex := true }
  | complete {echo : ℕ → BitVec 8} {wcount : ℕ} {reply : List (BitVec 8)}
      (hbus : d.bus = .done echo wcount reply) :
      Moves code d entered (storing code) (d.receive echo wcount reply)
  | ignore (hbus : ∀ echo wcount reply, d.bus ≠ .done echo wcount reply) :
      Moves code d entered leaving d
  | store {status : ℤ} : Moves code d (storing status) posting { d with status := status }
  | post : Moves code d posting leaving { d with busSem := d.busSem + 1 }
  | unlock : Moves code d leaving acknowledging { d with spiMutex := false }
  | acknowledge : Moves code d acknowledging idle d

variable {code : ℤ} {d d' : Component} {a a' : InterruptAt}

theorem moves_of_exec {o : Op} {k : Ans o → Io Unit} {r : Ans o} (hrest : a.rest = .call o k)
    (hexec : exec code o d = some (r, d')) : ∃ a', k r = a'.rest ∧ Moves code d a a' d' := by
  cases a with
  | idle => cases hrest
  | called =>
      obtain ⟨_, hexec, hk⟩ := Prog.exec_of_call_eq hrest hexec
      obtain ⟨hfree, rfl⟩ := exec_lock hexec
      exact ⟨entered, hk, .lock hfree⟩
  | entered =>
      obtain ⟨completed, hexec, hk⟩ := Prog.exec_of_call_eq hrest hexec
      simp only [exec] at hexec
      split at hexec
      · rename_i hbus
        obtain ⟨rfl, rfl⟩ := Prod.mk.inj (Option.some.inj hexec)
        exact ⟨storing code, hk, .complete hbus⟩
      · rename_i hbus
        obtain ⟨rfl, rfl⟩ := Prod.mk.inj (Option.some.inj hexec)
        exact ⟨leaving, hk, .ignore hbus⟩
  | storing status =>
      obtain ⟨_, hexec, hk⟩ := Prog.exec_of_call_eq hrest hexec
      obtain ⟨-, rfl⟩ := Prod.mk.inj (Option.some.inj hexec)
      exact ⟨posting, hk, .store⟩
  | posting =>
      obtain ⟨_, hexec, hk⟩ := Prog.exec_of_call_eq hrest hexec
      obtain ⟨-, rfl⟩ := Prod.mk.inj (Option.some.inj hexec)
      exact ⟨leaving, hk, .post⟩
  | leaving =>
      obtain ⟨_, hexec, hk⟩ := Prog.exec_of_call_eq hrest hexec
      obtain ⟨-, rfl⟩ := Prod.mk.inj (Option.some.inj hexec)
      exact ⟨acknowledging, hk, .unlock⟩
  | acknowledging =>
      obtain ⟨_, hexec, hk⟩ := Prog.exec_of_call_eq hrest hexec
      obtain ⟨-, rfl⟩ := Prod.mk.inj (Option.some.inj hexec)
      exact ⟨idle, hk, .acknowledge⟩

theorem exec_of_moves (h : Moves code d a a' d') :
    ∃ o k r, a.rest = .call o k ∧ exec code o d = some (r, d') ∧ k r = a'.rest := by
  cases h with
  | lock hfree => exact ⟨_, _, (), rfl, exec_lock_of_free hfree, rfl⟩
  | complete hbus =>
      refine ⟨_, _, some code, rfl, ?_, rfl⟩
      simp only [exec, hbus]
  | ignore hbus =>
      refine ⟨_, _, none, rfl, ?_, rfl⟩
      cases hd : d.bus with
      | done echo wcount reply => exact absurd hd (hbus echo wcount reply)
      | idle => simp only [exec, hd]
      | shifting txbuf wcount rcount => simp only [exec, hd]
  | store => exact ⟨_, _, (), rfl, rfl, rfl⟩
  | post => exact ⟨_, _, (), rfl, rfl, rfl⟩
  | unlock => exact ⟨_, _, (), rfl, rfl, rfl⟩
  | acknowledge => exact ⟨_, _, (), rfl, rfl, rfl⟩

end InterruptAt

/-! ## A command of a CAN thread -/

/-- Where a command is: the bytes that it has stored, or those that it has read. -/
inductive CmdAt
  | asked
  | storing (n : ℕ)
  | awaiting
  | loading (bytes : List (BitVec 8))
  | done (reply : List (BitVec 8))

namespace CmdAt

/-- What is left of `transact`. -/
def rest (txbuf : List (BitVec 8)) (rcount : ℕ) : CmdAt → Cmd (List (BitVec 8))
  | asked => transact txbuf rcount
  | storing n => do
      storeTxbuf n (txbuf.drop n)
      cmdOp (.spiTransfer devId txbuf.length rcount)
      let _ ← cmdOp .spiTransferReturn
      let reply ← loadRxbuf txbuf.length rcount []
      cmdOp .spiLockUnlock
      return reply
  | awaiting => do
      let _ ← cmdOp .spiTransferReturn
      let reply ← loadRxbuf txbuf.length rcount []
      cmdOp .spiLockUnlock
      return reply
  | loading bytes => do
      let reply ← loadRxbuf (txbuf.length + bytes.length) (rcount - bytes.length) bytes
      cmdOp .spiLockUnlock
      return reply
  | done reply => return reply

/-- The steps of a command. -/
inductive Moves (txbuf : List (BitVec 8)) (rcount : ℕ) (s : System) : CmdAt → CmdAt → System → Prop
  | lock (hfree : s.spiLock = false) :
      Moves txbuf rcount s asked (storing 0) { s with spiLock := true }
  | store {n : ℕ} {byte : BitVec 8} (hbyte : txbuf[n]? = some byte) (hsize : n < spiTransMaxSize) :
      Moves txbuf rcount s (storing n) (storing (n + 1))
        { s with spi := { s.spi with txbuf := Function.update s.spi.txbuf n byte } }
  | ask {n : ℕ} (hlen : txbuf.length ≤ n) (hrpc : s.rpc = .idle) :
      Moves txbuf rcount s (storing n) awaiting { s with rpc := .called devId txbuf.length rcount }
  | back {ret : ℤ} (hrpc : s.rpc = .returned ret) :
      Moves txbuf rcount s awaiting (loading []) { s with rpc := .idle }
  | load {bytes : List (BitVec 8)} (hlen : bytes.length < rcount)
      (hsize : txbuf.length + bytes.length < spiTransMaxSize) :
      Moves txbuf rcount s (loading bytes)
        (loading (bytes ++ [s.spi.rxbuf (txbuf.length + bytes.length)])) s
  | unlock {bytes : List (BitVec 8)} (hlen : rcount ≤ bytes.length) :
      Moves txbuf rcount s (loading bytes) (done bytes) { s with spiLock := false }

variable {txbuf : List (BitVec 8)} {rcount : ℕ} {s s' : System} {a a' : CmdAt}

theorem rest_storing_of_lt {n : ℕ} {byte : BitVec 8} (h : txbuf[n]? = some byte) :
    (storing n).rest txbuf rcount =
      .call (.setTxbuf n byte) fun _ => (storing (n + 1)).rest txbuf rcount := by
  obtain ⟨hn, rfl⟩ := List.getElem?_eq_some_iff.1 h
  simp only [rest, List.drop_eq_getElem_cons hn]
  rfl

theorem rest_storing_of_le {n : ℕ} (h : txbuf.length ≤ n) :
    (storing n).rest txbuf rcount =
      .call (.spiTransfer devId txbuf.length rcount) fun _ => awaiting.rest txbuf rcount := by
  simp only [rest, List.drop_eq_nil_of_le h]
  rfl

theorem rest_loading_of_lt {bytes : List (BitVec 8)} (h : bytes.length < rcount) :
    (loading bytes).rest txbuf rcount =
      .call (.getRxbuf (txbuf.length + bytes.length)) fun byte =>
        (loading (bytes ++ [byte])).rest txbuf rcount := by
  obtain ⟨n, hn⟩ : ∃ n, rcount - bytes.length = n + 1 := ⟨rcount - bytes.length - 1, by omega⟩
  have hn' : ∀ byte, rcount - (bytes ++ [byte]).length = n := fun byte => by
    rw [List.length_append, List.length_singleton]
    omega
  have hlen : ∀ byte : BitVec 8,
      txbuf.length + (bytes ++ [byte]).length = txbuf.length + bytes.length + 1 := fun byte => by
    rw [List.length_append, List.length_singleton, Nat.add_assoc]
  simp only [rest, hn, hn', hlen]
  rfl

theorem rest_loading_of_le {bytes : List (BitVec 8)} (h : rcount ≤ bytes.length) :
    (loading bytes).rest txbuf rcount =
      .call .spiLockUnlock fun _ => (done bytes).rest txbuf rcount := by
  simp only [rest, Nat.sub_eq_zero_of_le h]
  rfl

/-- A command that has not returned is about to perform an operation. -/
theorem storing_ne_done (n : ℕ) (reply : List (BitVec 8)) : storing n ≠ done reply := nofun

theorem exists_call_rest (txbuf : List (BitVec 8)) (rcount : ℕ) (ha : ∀ reply, a ≠ done reply) :
    ∃ o k, a.rest txbuf rcount = .call o k := by
  cases a with
  | asked => exact ⟨_, _, rfl⟩
  | storing n =>
      cases hbyte : txbuf[n]? with
      | some byte => exact ⟨_, _, rest_storing_of_lt hbyte⟩
      | none => exact ⟨_, _, rest_storing_of_le (List.getElem?_eq_none_iff.1 hbyte)⟩
  | awaiting => exact ⟨_, _, rfl⟩
  | loading bytes =>
      by_cases hlen : bytes.length < rcount
      · exact ⟨_, _, rest_loading_of_lt hlen⟩
      · exact ⟨_, _, rest_loading_of_le (Nat.not_lt.1 hlen)⟩
  | done reply => exact absurd rfl (ha reply)

theorem moves_of_exec {o : CmdOp} {k : CmdAns o → Cmd (List (BitVec 8))} {r : CmdAns o}
    (hrest : a.rest txbuf rcount = .call o k) (hexec : System.execCmd o s = some (r, s')) :
    ∃ a', k r = a'.rest txbuf rcount ∧ Moves txbuf rcount s a a' s' := by
  cases a with
  | asked =>
      obtain ⟨_, hexec, hk⟩ := Prog.exec_of_call_eq hrest hexec
      simp only [System.execCmd] at hexec
      split at hexec
      · cases hexec
      · rename_i hfree
        obtain ⟨-, rfl⟩ := Prod.mk.inj (Option.some.inj hexec)
        exact ⟨storing 0, hk, .lock (Bool.eq_false_of_not_eq_true hfree)⟩
  | storing n =>
      cases hbyte : txbuf[n]? with
      | some byte =>
          rw [rest_storing_of_lt hbyte] at hrest
          obtain ⟨_, hexec, hk⟩ := Prog.exec_of_call_eq hrest hexec
          simp only [System.execCmd] at hexec
          split at hexec
          · rename_i hsize
            obtain ⟨-, rfl⟩ := Prod.mk.inj (Option.some.inj hexec)
            exact ⟨storing (n + 1), hk, .store hbyte hsize⟩
          · cases hexec
      | none =>
          have hlen := List.getElem?_eq_none_iff.1 hbyte
          rw [rest_storing_of_le hlen] at hrest
          obtain ⟨_, hexec, hk⟩ := Prog.exec_of_call_eq hrest hexec
          simp only [System.execCmd] at hexec
          split at hexec
          · rename_i hrpc
            obtain ⟨-, rfl⟩ := Prod.mk.inj (Option.some.inj hexec)
            exact ⟨awaiting, hk, .ask hlen hrpc⟩
          · cases hexec
  | awaiting =>
      obtain ⟨_, hexec, hk⟩ := Prog.exec_of_call_eq hrest hexec
      simp only [System.execCmd] at hexec
      split at hexec
      · rename_i hrpc
        obtain ⟨-, rfl⟩ := Prod.mk.inj (Option.some.inj hexec)
        exact ⟨loading [], hk, .back hrpc⟩
      · cases hexec
  | loading bytes =>
      by_cases hlen : bytes.length < rcount
      · rw [rest_loading_of_lt hlen] at hrest
        obtain ⟨_, hexec, hk⟩ := Prog.exec_of_call_eq hrest hexec
        simp only [System.execCmd] at hexec
        split at hexec
        · rename_i hsize
          obtain ⟨rfl, rfl⟩ := Prod.mk.inj (Option.some.inj hexec)
          exact ⟨_, hk, .load hlen hsize⟩
        · cases hexec
      · rw [rest_loading_of_le (Nat.not_lt.1 hlen)] at hrest
        obtain ⟨_, hexec, hk⟩ := Prog.exec_of_call_eq hrest hexec
        obtain ⟨-, rfl⟩ := Prod.mk.inj (Option.some.inj hexec)
        exact ⟨done bytes, hk, .unlock (Nat.not_lt.1 hlen)⟩
  | done reply => cases hrest

theorem exec_of_moves (h : Moves txbuf rcount s a a' s') :
    ∃ o k r, a.rest txbuf rcount = .call o k ∧ System.execCmd o s = some (r, s') ∧
      k r = a'.rest txbuf rcount := by
  cases h with
  | lock hfree =>
      refine ⟨_, _, (), rfl, ?_, rfl⟩
      simp only [System.execCmd, hfree, Bool.false_eq_true, if_false]
  | store hbyte hsize =>
      refine ⟨_, _, (), rest_storing_of_lt hbyte, ?_, rfl⟩
      simp only [System.execCmd, if_pos hsize]
  | ask hlen hrpc =>
      refine ⟨_, _, (), rest_storing_of_le hlen, ?_, rfl⟩
      simp only [System.execCmd, hrpc]
  | @back ret hrpc =>
      refine ⟨_, _, ret, rfl, ?_, rfl⟩
      simp only [System.execCmd, hrpc]
  | load hlen hsize =>
      refine ⟨_, _, _, rest_loading_of_lt hlen, ?_, rfl⟩
      simp only [System.execCmd, if_pos hsize]
  | unlock hlen => exact ⟨_, _, (), rest_loading_of_le hlen, rfl, rfl⟩

end CmdAt

end Spi
end Tk1Bsp
