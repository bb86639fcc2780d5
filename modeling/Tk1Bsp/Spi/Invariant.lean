import Mathlib.Data.List.GetD
import Tk1Bsp.Spi.Commands
import Tk1Bsp.Spi.Places

/-!
# One command at a time

What holds in every state of the two components, whatever the bus driver answers.  The ghost state
says which thread has `spi_lock` and how far its command has come: through its own places, through
those of the call in the other component, and, while that call is served, through the stages of the
transfer (`Transfer`).  All of the state that the threads of the SPI component share is determined
by it (`SpiSide`): the bus is busy only with the bytes of this command, `bus_sem` is posted once,
when they have been exchanged, and the reply stays in the buffer until it has been read.

The thread with the lock is past its command as soon as the reply is determined, although it does
not know it yet; `shown` is what the CAN component looks like then.
-/

namespace Tk1Bsp
namespace Spi

/-! ## Ghost state -/

/-- How far the transfer of a call has come.  Once there is a reply, it is known. -/
inductive Transfer
  | pending
  | shifting
  | exchanged (echo : ℕ → BitVec 8) (reply : List (BitVec 8))
  | completing (reply : List (BitVec 8))
  | posted (reply : List (BitVec 8))
  | received (reply : List (BitVec 8))

namespace Transfer

/-- The reply, from the exchange on. -/
def reply? : Transfer → Option (List (BitVec 8))
  | pending | shifting => none
  | exchanged _ reply | completing reply | posted reply | received reply => some reply

/-- The reply, once it is in the shared buffer. -/
def stored? : Transfer → Option (List (BitVec 8))
  | pending | shifting | exchanged _ _ => none
  | completing reply | posted reply | received reply => some reply

/-- What the bus does. -/
def bus (wcount rcount : ℕ) : Transfer → Bus
  | shifting => .shifting .port wcount rcount
  | exchanged echo reply => .done echo wcount reply
  | _ => .idle

/-- The count of `bus_sem`. -/
def busSem : Transfer → ℕ
  | posted _ => 1
  | _ => 0

/-- The interrupt handler is inside the callback. -/
def completes : Transfer → Bool
  | completing _ => true
  | _ => false

/-- Where the thread that serves the call can be. -/
def Allows : Transfer → ServerAt → Prop
  | pending, .asked | pending, .other | pending, .prepared => True
  | pending, .ready | pending, .locked => True
  | shifting, .issued ret | exchanged _ _, .issued ret => 0 ≤ ret
  | shifting, .waiting | exchanged _ _, .waiting => True
  | completing _, .waiting | posted _, .waiting => True
  | received _, .issued ret => ret < 0
  | received _, .woken | received _, .finished _ => True
  | _, _ => False

end Transfer

/-- The thread that serves a call has `spi_mutex`. -/
def ServerAt.holds : ServerAt → Bool
  | .locked | .issued _ => true
  | _ => false

/-- The bus is prepared for the slave, from a place on. -/
def ServerAt.Chosen (d : Component) : ServerAt → Prop
  | .asked | .other => True
  | .prepared => d.cfg = some canSlave.cfg
  | _ => d.curSlaveId = canAppId

/-- The interrupt handler has `spi_mutex`. -/
def InterruptAt.holds : InterruptAt → Bool
  | .entered | .storing _ | .posting | .leaving => true
  | _ => false

/-- The interrupt handler is inside the callback. -/
def InterruptAt.completes : InterruptAt → Bool
  | .storing _ | .posting => true
  | _ => false

/-- How far the command of the thread with the lock has come, if there is one. -/
inductive Progress
  | free
  | storing (n : ℕ)
  | called
  | serving (a : ServerAt) (x : Transfer)
  | returned (ret : ℤ) (reply : List (BitVec 8))
  | loading (reply bytes : List (BitVec 8))

namespace Progress

/-- How far its transfer has come. -/
def transfer : Progress → Transfer
  | serving _ x => x
  | returned _ reply | loading reply _ => .received reply
  | _ => .pending

/-- Where the command is. -/
def place : Progress → CmdAt
  | free => .asked
  | storing n => .storing n
  | loading _ bytes => .loading bytes
  | _ => .awaiting

/-- Where its call is. -/
def rpc (wcount rcount : ℕ) : Progress → Rpc
  | called => .called devId wcount rcount
  | serving _ _ => .running
  | returned ret _ => .returned ret
  | _ => .idle

/-- What is left of the call that is being served. -/
def server (wcount rcount : ℕ) : Progress → Option (Io ℤ)
  | serving a _ => some (a.rest wcount rcount)
  | _ => none

/-- The thread that serves the call has `spi_mutex`. -/
def holds : Progress → Bool
  | serving a _ => a.holds
  | _ => false

/-- How many bytes have been stored. -/
def stored (wcount : ℕ) : Progress → ℕ
  | free => 0
  | storing n => n
  | _ => wcount

/-- What fits together. -/
def Legal (wcount : ℕ) (d : Component) : Progress → Prop
  | storing n => n ≤ wcount
  | serving a x => x.Allows a ∧ a.Chosen d
  | loading reply bytes => bytes = reply.take bytes.length
  | _ => True

end Progress

/-! How many steps it is from the end, at most. -/

/-- The steps of the transfer, of the call that is served, and of the command. -/
def Transfer.left : Transfer → ℕ
  | pending | received _ => 0
  | posted _ => 2
  | completing _ => 3
  | exchanged _ _ => 4
  | shifting => 5

@[inherit_doc Transfer.left]
def ServerAt.left (x : Transfer) : ServerAt → ℕ
  | asked => 11
  | other => 10
  | prepared => 9
  | ready => 8
  | locked => 7
  | issued _ => x.left + 1
  | waiting => x.left
  | woken => 1
  | finished _ => 0

@[inherit_doc Transfer.left]
def Progress.left (wcount rcount : ℕ) : Progress → ℕ
  | free => 0
  | storing n => rcount + 16 + (wcount - n)
  | called => rcount + 15
  | serving a x => rcount + 3 + a.left x
  | returned _ _ => rcount + 2
  | loading _ bytes => rcount - bytes.length + 1

/-- The thread with the lock, its command, how far it has come, and where the interrupt handler
is. -/
structure Ghost where
  holder : Option Tid
  txbuf : List (BitVec 8)
  rcount : ℕ
  progress : Progress
  interrupt : InterruptAt

/-! ## The invariant -/

/-- The CAN component and `spi_lock`. -/
structure CanSide (g : Ghost) (s : System) : Prop where
  fits : s.can.Every Fits
  lock : s.spiLock = g.holder.isSome
  free : g.holder = none ↔ g.progress = .free
  waiting : ∀ t p, s.cmd t = some p → g.holder ≠ some t →
    ∃ txbuf rcount, commandOf s.can t = some (txbuf, rcount) ∧ p = transact txbuf rcount
  command : ∀ t, g.holder = some t → commandOf s.can t = some (g.txbuf, g.rcount)
  cmd : ∀ t, g.holder = some t → s.cmd t = some (g.progress.place.rest g.txbuf g.rcount)

/-- The SPI component, the bus and the call. -/
structure SpiSide (g : Ghost) (s : System) : Prop where
  rpc : s.rpc = g.progress.rpc g.txbuf.length g.rcount
  server : s.server = g.progress.server g.txbuf.length g.rcount
  interrupt : s.interrupt = g.interrupt.rest
  mutex : s.spi.spiMutex = (g.progress.holds || g.interrupt.holds)
  exclusive : (g.progress.holds && g.interrupt.holds) = false
  bus : s.spi.bus = g.progress.transfer.bus g.txbuf.length g.rcount
  busSem : s.spi.busSem = g.progress.transfer.busSem
  completes : g.interrupt.completes = g.progress.transfer.completes
  cfg : s.spi.curSlaveId = canAppId → s.spi.cfg = some canSlave.cfg
  legal : g.progress.Legal g.txbuf.length s.spi
  text : ∀ i < g.progress.stored g.txbuf.length, s.spi.txbuf i = g.txbuf.getD i 0
  length : ∀ reply, g.progress.transfer.reply? = some reply → reply.length = g.rcount
  kept : ∀ reply, g.progress.transfer.stored? = some reply →
    ∀ i < reply.length, s.spi.rxbuf (g.txbuf.length + i) = reply.getD i 0

/-- The two sides. -/
structure Inv (g : Ghost) (s : System) : Prop where
  can : CanSide g s
  spi : SpiSide g s

/-- The CAN component as it is when the thread with the lock has its reply. -/
def Ghost.shown (g : Ghost) (can : Can.System) : Can.System :=
  match g.holder, g.progress.transfer.reply? with
  | some t, some reply => answer can reply t
  | _, _ => can

/-! ## The SPI component -/

/-- The reply that the thread with the lock gets, if `spi_xfer` refuses: what was in the buffer. -/
def stale (d : Component) (wcount rcount : ℕ) : List (BitVec 8) :=
  (List.range rcount).map fun i => d.rxbuf (wcount + i)

theorem length_stale (d : Component) (wcount rcount : ℕ) :
    (stale d wcount rcount).length = rcount := by
  rw [stale, List.length_map, List.length_range]

theorem getD_stale (d : Component) {wcount rcount i : ℕ} (hi : i < rcount) :
    (stale d wcount rcount).getD i 0 = d.rxbuf (wcount + i) := by
  simp [stale, hi]

namespace SpiSide

variable {holder : Option Tid} {txbuf : List (BitVec 8)} {rcount : ℕ} {ia : InterruptAt}
  {s : System} {code : ℤ}

/-- What a step of the thread that serves the call does to the transfer.  A refusal ends it with
whatever is in the buffer. -/
theorem moves_server {a a' : ServerAt} {x : Transfer} {d' : Component}
    (h : SpiSide ⟨holder, txbuf, rcount, .serving a x, ia⟩ s)
    (hmoves : ServerAt.Moves code txbuf.length rcount s.spi a a' d') :
    ∃ x', SpiSide ⟨holder, txbuf, rcount, .serving a' x', ia⟩
        { s with server := some (a'.rest txbuf.length rcount), spi := d' } ∧
      (x'.reply? = x.reply? ∨ code < 0 ∧ x.reply? = none ∧ ∃ reply, x'.reply? = some reply) ∧
      a'.left x' < a.left x := by
  have hallows : x.Allows a := h.legal.1
  cases hmoves with
  | same hcur =>
      cases x <;> first | exact hallows.elim | skip
      exact ⟨.pending, { h with server := rfl, legal := ⟨trivial, hcur⟩ }, .inl rfl, by decide⟩
  | other hcur =>
      cases x <;> first | exact hallows.elim | skip
      exact ⟨.pending, { h with server := rfl, legal := ⟨trivial, trivial⟩ }, .inl rfl, by decide⟩
  | prepare =>
      cases x <;> first | exact hallows.elim | skip
      exact ⟨.pending,
        { h with server := rfl, cfg := fun _ => rfl, legal := ⟨trivial, rfl⟩ }, .inl rfl, by decide⟩
  | choose =>
      cases x <;> first | exact hallows.elim | skip
      exact ⟨.pending,
        { h with server := rfl, cfg := fun _ => h.legal.2, legal := ⟨trivial, rfl⟩ }, .inl rfl,
        by decide⟩
  | lock hfree =>
      cases x <;> first | exact hallows.elim | skip
      have hia : ia.holds = false := h.mutex.symm.trans hfree
      exact ⟨.pending,
        { h with
          server := rfl
          mutex := rfl
          exclusive := hia
          legal := ⟨trivial, h.legal.2⟩ }, .inl rfl, by decide⟩
  | refuse hcode =>
      cases x <;> first | exact hallows.elim | skip
      refine ⟨.received (stale s.spi txbuf.length rcount),
        { h with server := rfl, legal := ⟨hcode, h.legal.2⟩, length := ?_, kept := ?_ },
        .inr ⟨hcode, rfl, _, rfl⟩, by simp [ServerAt.left, Transfer.left]⟩
      · rintro reply ⟨⟩
        exact length_stale _ _ _
      · rintro reply ⟨⟩ i hi
        rw [length_stale] at hi
        exact (getD_stale _ hi).symm
  | start hcode hbus hsize =>
      cases x <;> first | exact hallows.elim | skip
      exact ⟨.shifting,
        { h with server := rfl, bus := rfl, legal := ⟨hcode, h.legal.2⟩ }, .inl rfl,
        by simp [ServerAt.left, Transfer.left]⟩
  | unlock hret =>
      have hia : ia.holds = false := h.exclusive
      refine ⟨x, ?_, .inl rfl, Nat.lt_succ_self _⟩
      cases x <;> first | exact hallows.elim | exact absurd hallows (Int.not_lt.2 hret) | skip
      all_goals exact
        { h with
          server := rfl
          mutex := hia.symm
          exclusive := rfl
          legal := ⟨trivial, h.legal.2⟩ }
  | giveUp hret =>
      have hia : ia.holds = false := h.exclusive
      refine ⟨x, ?_, .inl rfl, Nat.succ_pos _⟩
      cases x <;> first | exact hallows.elim | exact absurd hret (Int.not_lt.2 hallows) | skip
      exact
        { h with
          server := rfl
          mutex := hia.symm
          exclusive := rfl
          legal := ⟨trivial, h.legal.2⟩ }
  | wake hsem =>
      cases x <;> first | exact hallows.elim | exact absurd h.busSem hsem | skip
      rename_i reply
      exact ⟨.received reply,
        { h with
          server := rfl
          busSem := congrArg (· - 1) h.busSem
          legal := ⟨trivial, h.legal.2⟩ }, .inl rfl, by simp [ServerAt.left, Transfer.left]⟩
  | finish =>
      cases x <;> first | exact hallows.elim | skip
      exact ⟨_, { h with server := rfl, legal := ⟨trivial, h.legal.2⟩ }, .inl rfl, Nat.zero_lt_one⟩

/-- What a step of the interrupt handler does to the transfer.  The callback can only come when the
thread that serves the call waits for it. -/
theorem moves_interrupt {p : Progress} {ia' : InterruptAt} {d' : Component}
    (h : SpiSide ⟨holder, txbuf, rcount, p, ia⟩ s)
    (hmoves : InterruptAt.Moves code s.spi ia ia' d') :
    ∃ p', SpiSide ⟨holder, txbuf, rcount, p', ia'⟩ { s with interrupt := ia'.rest, spi := d' } ∧
      p'.place = p.place ∧ p'.transfer.reply? = p.transfer.reply? ∧ (p' = .free ↔ p = .free) ∧
      (p' = p ∨ p'.left txbuf.length rcount < p.left txbuf.length rcount) := by
  cases hmoves with
  | lock hfree =>
      have hp : p.holds = false := (Bool.or_eq_false_iff.1 (h.mutex.symm.trans hfree)).1
      refine ⟨p, { h with interrupt := rfl, mutex := ?_, exclusive := ?_ }, rfl, rfl, Iff.rfl,
        .inl rfl⟩
      · exact (Bool.or_true p.holds).symm
      · rw [hp]
        rfl
  | @complete echo wcount reply hbus =>
      have hdone : p.transfer.bus txbuf.length rcount = .done echo wcount reply :=
        h.bus.symm.trans hbus
      cases p <;> try cases hdone
      rename_i a x
      cases x <;> cases hdone
      have ha : a.holds = false := (Bool.and_true a.holds).symm.trans h.exclusive
      have hallows := h.legal.1
      cases a <;> first | exact hallows.elim | cases ha
      refine ⟨.serving .waiting (.completing reply),
        { h with interrupt := rfl, bus := rfl, completes := rfl, legal := ⟨trivial, h.legal.2⟩,
                 kept := ?_ }, rfl, rfl, Iff.intro nofun nofun, .inr ?_⟩
      rotate_left
      · simp [Progress.left, ServerAt.left, Transfer.left]
      rintro _ ⟨⟩ i hi
      have hnot : ¬ txbuf.length + i < txbuf.length := by omega
      have hlt : txbuf.length + i < txbuf.length + reply.length := by omega
      simp only [Component.receive, if_neg hnot, if_pos hlt, Nat.add_sub_cancel_left]
  | ignore hbus =>
      exact ⟨p, { h with interrupt := rfl }, rfl, rfl, Iff.rfl, .inl rfl⟩
  | store =>
      exact ⟨p, { h with interrupt := rfl }, rfl, rfl, Iff.rfl, .inl rfl⟩
  | post =>
      have hcompletes : p.transfer.completes = true := h.completes.symm
      cases p <;> try cases hcompletes
      rename_i a x
      cases x <;> cases hcompletes
      rename_i reply
      refine ⟨.serving a (.posted reply),
        { h with interrupt := rfl, busSem := congrArg (· + 1) h.busSem, completes := rfl,
                 legal := ⟨?_, h.legal.2⟩ }, rfl, rfl, Iff.intro nofun nofun, .inr ?_⟩
      · have hallows := h.legal.1
        cases a <;> first | exact hallows.elim | trivial
      · have hallows := h.legal.1
        cases a <;> first | exact hallows.elim | simp [Progress.left, ServerAt.left, Transfer.left]
  | unlock =>
      have hp : p.holds = false := (Bool.and_true p.holds).symm.trans h.exclusive
      refine ⟨p, { h with interrupt := rfl, mutex := ?_, exclusive := ?_ }, rfl, rfl, Iff.rfl,
        .inl rfl⟩
      · rw [hp]
        rfl
      · exact Bool.and_false p.holds
  | acknowledge =>
      exact ⟨p, { h with interrupt := rfl }, rfl, rfl, Iff.rfl, .inl rfl⟩

/-- What the interrupt finds at its start. -/
theorem start_interrupt {p : Progress} (h : SpiSide ⟨holder, txbuf, rcount, p, .idle⟩ s) :
    SpiSide ⟨holder, txbuf, rcount, p, .called⟩ { s with interrupt := spi1IntHandle } :=
  { h with interrupt := rfl }

/-- The bytes that the bus sends are those of the command. -/
theorem outgoing_eq {a : ServerAt} {x : Transfer}
    (h : SpiSide ⟨holder, txbuf, rcount, .serving a x, ia⟩ s) :
    s.spi.outgoing txbuf.length .port = txbuf := by
  refine List.ext_getElem ?_ fun i hi hi' => ?_
  · rw [Component.outgoing, List.length_map, List.length_range]
  · have htext := h.text i hi'
    simp only [Component.outgoing, List.getElem_map, List.getElem_range, htext]
    exact List.getD_eq_getElem txbuf 0 hi'

/-- The exchange of the bytes with the controller. -/
theorem exchange {a : ServerAt} {reply : List (BitVec 8)} (echo : ℕ → BitVec 8) (can : Can.System)
    (h : SpiSide ⟨holder, txbuf, rcount, .serving a .shifting, ia⟩ s)
    (hlen : reply.length = rcount) :
    SpiSide ⟨holder, txbuf, rcount, .serving a (.exchanged echo reply), ia⟩
      { s with can := can, spi := { s.spi with bus := .done echo txbuf.length reply } } := by
  have hallows := h.legal.1
  refine { h with bus := rfl, legal := ⟨?_, h.legal.2⟩, length := ?_ }
  · cases a <;> first | exact hallows.elim | exact hallows
  · rintro _ ⟨⟩
    exact hlen

/-- What a step of the command does, as long as it keeps the lock. -/
theorem moves_cmd {t : Tid} {p : Progress} {a' : CmdAt} {s' : System}
    (h : SpiSide ⟨some t, txbuf, rcount, p, ia⟩ s) (hbusy : p ≠ .free)
    (hmoves : CmdAt.Moves txbuf rcount s p.place a' s') (hkeeps : ∀ reply, a' ≠ .done reply) :
    ∃ p', SpiSide ⟨some t, txbuf, rcount, p', ia⟩ s' ∧ p'.place = a' ∧ p' ≠ .free ∧
      p'.transfer.reply? = p.transfer.reply? ∧ s'.can = s.can ∧ s'.cmd = s.cmd ∧
      s'.spiLock = s.spiLock ∧ p'.left txbuf.length rcount < p.left txbuf.length rcount := by
  generalize hplace : p.place = a at hmoves
  cases hmoves with
  | lock hfree => cases p <;> first | exact absurd rfl hbusy | cases hplace
  | @store n byte hbyte hsize =>
      cases p <;> cases hplace
      obtain ⟨hn, hget⟩ := List.getElem?_eq_some_iff.1 hbyte
      refine ⟨.storing (n + 1), { h with legal := hn, text := fun i hi => ?_ }, rfl, nofun, rfl,
        rfl, rfl, rfl, ?_⟩
      rotate_left
      · simp only [Progress.left]
        omega
      by_cases hin : i = n
      · subst hin
        rw [List.getD_eq_getElem txbuf 0 hn, hget]
        exact Function.update_self ..
      · exact (Function.update_of_ne hin ..).trans (h.text i (by
          have hi' : i < n + 1 := hi
          change i < n
          omega))
  | @ask n hlen hrpc =>
      cases p <;> cases hplace
      have hn : n = txbuf.length := le_antisymm h.legal hlen
      subst hn
      refine ⟨.called, { h with rpc := rfl, legal := trivial }, rfl, nofun, rfl, rfl, rfl, rfl, ?_⟩
      simp only [Progress.left]
      omega
  | @back ret hrpc =>
      cases p <;> cases h.rpc.symm.trans hrpc
      rename_i reply
      exact ⟨.loading reply [], { h with rpc := rfl, legal := rfl }, rfl, nofun, rfl, rfl, rfl, rfl,
        Nat.lt_succ_self _⟩
  | @load bytes hlen hsize =>
      cases p <;> cases hplace
      rename_i reply
      have hreply : bytes.length < reply.length := (h.length reply rfl).symm ▸ hlen
      have hbyte : s.spi.rxbuf (txbuf.length + bytes.length) = reply.getD bytes.length 0 :=
        h.kept reply rfl bytes.length hreply
      refine ⟨.loading reply (bytes ++ [s.spi.rxbuf (txbuf.length + bytes.length)]),
        { h with legal := ?_ }, rfl, nofun, rfl, rfl, rfl, rfl, ?_⟩
      rotate_left
      · simp only [Progress.left, List.length_append, List.length_singleton]
        omega
      have hbytes : bytes = reply.take bytes.length := h.legal
      change _ = reply.take (bytes ++ [_]).length
      rw [hbyte, List.length_append, List.length_singleton, List.getD_eq_getElem reply 0 hreply,
        List.take_add_one, ← hbytes, List.getElem?_eq_getElem hreply]
      rfl
  | @unlock bytes hlen => exact absurd rfl (hkeeps bytes)

/-- The end of the command: what it returns is the reply. -/
theorem unlock {t : Tid} {p : Progress} {bytes : List (BitVec 8)}
    (h : SpiSide ⟨some t, txbuf, rcount, p, ia⟩ s) (hplace : p.place = .loading bytes)
    (hlen : rcount ≤ bytes.length) :
    p.transfer.reply? = some bytes ∧
      SpiSide ⟨none, txbuf, rcount, .free, ia⟩ { s with spiLock := false } := by
  cases p <;> cases hplace
  rename_i reply
  have hbytes : bytes = reply.take bytes.length := h.legal
  have hreply : reply.length = rcount := h.length reply rfl
  rw [List.take_of_length_le (hreply ▸ hlen)] at hbytes
  subst hbytes
  exact ⟨rfl, { h with legal := trivial, text := nofun, length := nofun, kept := nofun }⟩

end SpiSide

end Spi
end Tk1Bsp
