import Unikraft.Lib.Credit
import Unikraft.Vsock.Table

/-!
# Credit flow control

The credit of a socket is meant to be that of the last packet for it other than a request, or of the request it was
accepted from (`CreditRecent`); `virtio_vsockdev_work_rx` does not store it for `REQUEST` nor for the number of the
state `LISTENING`, which is `SHUTDOWN`. A peer that obeys the rule sends within the window it computes modulo `2 ^ 32`
from the last credit fields it has received; packets are under way for any time but stay in order. The counters of the
connection are those of `Credit.Flow` (`RecvRel`).
-/

namespace Unikraft.Vsock

open Function (update update_of_ne update_self)
open Runs VirtioVsock World

def VirtioVsockHdr.credits (hdr : VirtioVsockHdr) : BitVec 32 × BitVec 32 := (hdr.bufAlloc, hdr.fwdCnt)

def VirtioVsock.peerCredits (v : VirtioVsock) : BitVec 32 × BitVec 32 := (v.peerBufAlloc, v.peerFwdCount)

def World.headCredits (w : World) (s : SockId) : Option (BitVec 32 × BitVec 32) :=
  match (w.sock s).acceptQueue with
  | [] => none
  | entry :: _ => w.requests[entry.req]?.map fun p => p.2.credits

/-- The layer with the history of its packets: the credit fields each socket was told last. -/
structure Credited where
  w : World
  last : SockId → Option (BitVec 32 × BitVec 32)

def Credited.init (cid : BitVec 32) (env : Nat → Outcome) : Credited := ⟨World.init cid env, fun _ => none⟩

variable (c : Credited)

def Credited.told : Op → SockId → Option (BitVec 32 × BitVec 32)
  | .rx pkt =>
    match rxTarget c.w pkt with
    | none => c.last
    | some s => if pkt.hdr.op = OP_REQUEST then c.last else update c.last s (some pkt.hdr.credits)
  | .accept s addr addrLen =>
    if c.w.next < (step c.w (.accept s addr addrLen)).next then update c.last c.w.next (c.w.headCredits s)
    else c.last
  | _ => c.last

def creditStep (op : Op) : Credited := ⟨step c.w op, c.told op⟩

/-- Connected and connecting sockets have the credit they were told last. -/
def CreditRecent : Prop :=
  ∀ s, c.w.live s = true → (c.w.sock s).state = .OPEN ∨ (c.w.sock s).state = .WAIT_CONNECT →
    ∀ p, c.last s = some p → (c.w.sock s).peerCredits = p

/-- A packet does not change the credit of a listening socket. -/
def ListeningKept : Op → Prop
  | .rx pkt => ∀ s, c.w.live s = true → (c.w.sock s).state = .LISTENING →
      ((step c.w (.rx pkt)).sock s).peerCredits = (c.w.sock s).peerCredits
  | _ => True

/-- `SHUTDOWN` packets for a socket that does not listen, and packets for a listening socket other than `REQUEST` and
`SHUTDOWN`, carry the credit that is stored. -/
def CreditRepeats : Op → Prop
  | .rx pkt => ∀ s, rxTarget c.w pkt = some s →
      if (c.w.sock s).state = .LISTENING then
        pkt.hdr.op = OP_REQUEST ∨ pkt.hdr.op = OP_SHUTDOWN ∨ pkt.hdr.credits = (c.w.sock s).peerCredits
      else pkt.hdr.op = OP_SHUTDOWN → pkt.hdr.credits = (c.w.sock s).peerCredits
  | _ => True

variable {op : Op} {s : SockId} {pkt : Packet}

section
variable {w : World} {v v' : VirtioVsock}

@[simp] theorem VirtioVsock.peerCredits_closed (v : VirtioVsock) : v.closed.peerCredits = v.peerCredits := by
  rw [closed_eq, peerCredits, peerCredits]

@[simp] theorem VirtioVsock.peerCredits_shutdownBy (v : VirtioVsock) (rx tx : Bool) :
    (v.shutdownBy rx tx).peerCredits = v.peerCredits := by
  rw [shutdownBy_eq, peerCredits, peerCredits]

private theorem VirtioVsock.peerCredits_credited (v : VirtioVsock) (hdr : VirtioVsockHdr) :
    (v.credited hdr).peerCredits = if storesCredit hdr then hdr.credits else v.peerCredits := by
  rw [credited_eq]
  cases storesCredit hdr <;> rfl

private theorem storesCredit_of_ne {hdr : VirtioVsockHdr} (hr : hdr.op ≠ OP_REQUEST) (hs : hdr.op ≠ OP_SHUTDOWN) :
    storesCredit hdr = true := by
  have hl : BitVec.ofNat 16 UkVsockState.LISTENING.val = OP_SHUTDOWN := rfl
  simp [storesCredit, hr, hl, hs]

private theorem Handled.peerCredits (h : Handled pkt v v') : v'.peerCredits = v.peerCredits := by
  cases h with
  | same | request | response | resetEvents | refused | resetWait | resetOpen | payload => rfl
  | badResponse | shutdown | shutdownClose => simp

private theorem Handled.listening (h : Handled pkt v v') (hv : v.state = .LISTENING) : v'.state = .LISTENING := by
  cases h with
  | same | request => exact hv
  | response _ hs | refused _ hs | resetWait _ hs | resetOpen _ hs | shutdown _ hs | shutdownClose _ hs
  | payload _ _ hs =>
    rw [hv] at hs
    cases hs
  | badResponse _ hs => rcases hs with hs | hs <;> rw [hv] at hs <;> cases hs
  | resetEvents _ hs => rcases hs with hs | hs | hs <;> rw [hv] at hs <;> cases hs

/-- Only packets write the credit, and a listening or closed socket is used no more. -/
private theorem Change.peerCredits (h : Change w op s v v') (ho : ∀ pkt, op ≠ .rx pkt) :
    v'.peerCredits = v.peerCredits ∧
      (v'.state ≠ .LISTENING → v'.state ≠ .CLOSED → v.state ≠ .LISTENING ∧ v.state ≠ .CLOSED) := by
  cases h with
  | rx => exact absurd rfl (ho _)
  | term | close | shutdownClose => simp
  | shutdown _ hs => simp [hs]
  | getsockopt | write hs | writeEmpty hs | sendto | sendtoEmpty | acceptFailed hs => exact ⟨rfl, And.intro⟩
  | read hs | recvfrom hs =>
    rw [VirtioVsock.clearIfEmpty_eq]
    exact ⟨rfl, And.intro⟩
  | bind hs | bindListen hs | connectPortless hs | connectUndone hs => exact ⟨rfl, fun _ _ => by simp [hs]⟩
  | listen => exact ⟨rfl, fun h => absurd rfl h⟩
  | connect hs =>
    refine ⟨rfl, fun _ _ => ?_⟩
    rcases hs with hs | hs <;> simp [hs]
  | accept hs =>
    rw [poppedClear_eq]
    exact ⟨rfl, And.intro⟩

/-- The entries of the accept queues have the credit fields of the requests they were made for. -/
def World.EntriesNoted (w : World) : Prop :=
  ∀ s, ∀ e ∈ (w.sock s).acceptQueue, ∃ hdr, w.requests[e.req]? = some (s, hdr) ∧
    (e.peerBufAlloc, e.peerFwdCount) = hdr.credits

private theorem VirtioVsock.acceptQueue_closed_subset (v : VirtioVsock) :
    ∀ e ∈ v.closed.acceptQueue, e ∈ v.acceptQueue := by
  intro e he
  rw [closed_eq] at he
  split at he
  · exact he
  · cases he

private theorem VirtioVsock.acceptQueue_shutdownBy_closed_subset (v : VirtioVsock) (rx tx : Bool) :
    ∀ e ∈ (v.shutdownBy rx tx).closed.acceptQueue, e ∈ v.acceptQueue := by
  intro e he
  have he' := acceptQueue_closed_subset _ e he
  simpa [shutdownBy_eq] using he'

private theorem Handled.acceptQueue_subset (h : Handled pkt v v')
    (hr : ¬ (pkt.hdr.op = OP_REQUEST ∧ v.state = .LISTENING)) : ∀ e ∈ v'.acceptQueue, e ∈ v.acceptQueue := by
  intro e he
  cases h with
  | same | response | resetEvents | refused | resetWait | resetOpen | payload => exact he
  | request _ ho hs => exact absurd ⟨ho, hs⟩ hr
  | badResponse => exact v.acceptQueue_closed_subset e he
  | shutdown => simpa [shutdownBy_eq] using he
  | shutdownClose => exact v.acceptQueue_shutdownBy_closed_subset _ _ e he

private theorem Change.acceptQueue_subset (h : Change w op s (w.sock s) v') (hn : ¬ op.IsRequest w) :
    ∀ e ∈ v'.acceptQueue, e ∈ (w.sock s).acceptQueue := by
  intro e he
  cases h with
  | @rx pkt _ _ _ ht hh =>
    have hc : ((w.sock s).credited pkt.hdr).acceptQueue = (w.sock s).acceptQueue := by rw [credited_eq]
    rw [← hc]
    exact hh.acceptQueue_subset (fun hr => hn ⟨hr.1, s, ht, by simpa using hr.2⟩) e he
  | term | close => exact acceptQueue_closed_subset _ e he
  | shutdown => simpa [shutdownBy_eq] using he
  | shutdownClose => exact (w.sock s).acceptQueue_shutdownBy_closed_subset _ _ e he
  | read | recvfrom => simpa [VirtioVsock.clearIfEmpty_eq, VirtioVsock.readBytes] using he
  | getsockopt | write | writeEmpty | sendto | sendtoEmpty | bind | listen | bindListen | connectPortless
  | connectUndone | connect => exact he
  | acceptFailed _ hq =>
    rw [hq]
    exact List.mem_cons_of_mem _ he
  | accept _ hq =>
    rw [poppedClear_eq] at he
    rw [hq]
    exact List.mem_cons_of_mem _ he

private theorem xmitHdr_requests (w : World) (hdr : VirtioVsockHdr) (a : Option Nat) :
    (xmitHdr w hdr a).1.requests = w.requests := by
  rcases xmitHdr_cases w hdr a with ⟨n, h⟩ | ⟨n, e, -, -, h⟩ <;> rw [h]

private theorem virtioVsockAccept_requests (w : World) (s : SockId) (entry : AcceptEntry) :
    (virtioVsockAccept w s entry).1.requests = w.requests := by
  unfold virtioVsockAccept
  dsimp only [ukMalloc]
  cases w.outcome.alloc with
  | false => exact xmitHdr_requests ..
  | true =>
    dsimp only
    cases w.advance.outcome.alloc with
    | false => exact xmitHdr_requests ..
    | true =>
      dsimp only
      have hr : (virtioVsockConnRespond w.advance.advance
          (accepted w.advance.advance.cid (w.advance.advance.sock s) entry) (some entry.req)).1.requests =
          w.requests := xmitHdr_requests ..
      split
      all_goals
        rename_i hx
        rw [hx] at hr
        exact hr

private theorem accept_requests (w : World) (s : SockId) (addr : Bool) (addrLen : Option Nat) :
    (exec w (.accept s addr addrLen)).requests = w.requests := by
  have hcall : (vsockAccept4 w s addr addrLen).1.requests = w.requests := by
    unfold vsockAccept4
    split
    · rfl
    split
    · rfl
    split
    · rfl
    rename_i entry queue hq
    have hr := virtioVsockAccept_requests (w.modify s fun v =>
      { v with acceptQueue := queue, acceptQueueLength := v.acceptQueueLength - 1 }) s entry
    dsimp only
    split
    · rename_i hx
      rw [hx] at hr
      exact hr
    · rename_i hx
      rw [hx] at hr
      split <;> exact hr
  simp only [exec]
  split
  all_goals
    rename_i hx
    rw [hx] at hcall
    exact hcall

private theorem World.EntriesNoted.mono {w' : World} (h : w.EntriesNoted) (hr : w'.requests = w.requests)
    (hq : ∀ t, ∀ e ∈ (w'.sock t).acceptQueue, e ∈ (w.sock t).acceptQueue) : w'.EntriesNoted := by
  intro t e he
  obtain ⟨hdr, hreq, hc⟩ := h t e (hq t e he)
  exact ⟨hdr, by rw [hr]; exact hreq, hc⟩

private theorem World.EntriesNoted.noted (h : w.EntriesNoted) (s : SockId) (hdr : VirtioVsockHdr) :
    (w.noted s hdr).EntriesNoted := by
  intro t e he
  obtain ⟨hdr', hreq, hc⟩ := h t e he
  obtain ⟨hlt, -⟩ := List.getElem?_eq_some_iff.1 hreq
  refine ⟨hdr', ?_, hc⟩
  show (w.requests ++ [(s, hdr)])[e.req]? = _
  rw [List.getElem?_append_left hlt, hreq]

private theorem entriesNoted_request (h : w.EntriesNoted) (hr : Op.IsRequest w (.rx pkt)) :
    (step w (.rx pkt)).EntriesNoted := by
  obtain ⟨ho, s, ht, hst⟩ := hr
  have hw : step w (.rx pkt) = _ := congrArg Prod.fst (workRx_of_request ht hst ho)
  have hn := h.noted s pkt.hdr
  rw [hw]
  rcases request_cases pkt.hdr hst with ⟨-, he⟩ | ⟨-, he⟩ | ⟨-, he⟩
  · rwa [he]
  · rw [he]
    refine hn.mono (xmitHdr_requests ..) fun t e hm => ?_
    rwa [(rejectConn_calm (w.noted s pkt.hdr) s (pkt.hdr.entry w.requests.length)).sock_eq] at hm
  · rw [he]
    intro t e hm
    by_cases hts : t = s
    · subst hts
      rw [modify_self] at hm
      rcases List.mem_append.1 hm with hm | hm
      · exact hn t e hm
      · rw [List.mem_singleton.1 hm]
        exact ⟨pkt.hdr, by simp [noted, VirtioVsockHdr.entry], rfl⟩
    · rw [modify_of_ne _ _ hts] at hm
      exact hn t e hm

/-- Every step keeps the requests of the accept queues noted. -/
theorem World.EntriesNoted.step (h : w.EntriesNoted) (hw : w.Fresh) (op : Op) : (Vsock.step w op).EntriesNoted := by
  by_cases hr : op.IsRequest w
  · cases op with
    | rx pkt => exact entriesNoted_request h hr
    | socket | bind | listen | connect | accept | shutdown | close | getsockopt | write | sendto | read | recvfrom
    | term => exact absurd hr id
  refine h.mono ?_ ?_
  · by_cases hs : op.Serves w
    · cases op with
      | accept s a l =>
        simp only [Vsock.step, Op.sock?]
        split
        · exact accept_requests w s a l
        · rfl
      | socket | bind | listen | connect | shutdown | close | getsockopt | write | sendto | read | recvfrom
      | term | rx => exact absurd hs hr
    · exact (step_follows hw op).requests_eq hs
  · intro t e he
    rcases step_change hw op t with hsame | hch | ⟨rfl, -, hb⟩
    · rwa [hsame] at he
    · exact hch.acceptQueue_subset hr e he
    · generalize (Vsock.step w op).sock w.next = v' at hb he
      cases hb <;> cases he

end

structure CreditInv (c : Credited) : Prop where
  sound : TableSound c.w
  noted : c.w.EntriesNoted
  told : ∀ t p, c.last t = some p → t < c.w.next
  recent : ∀ t p, (c.w.sock t).state ≠ .LISTENING → (c.w.sock t).state ≠ .CLOSED → c.last t = some p →
    (c.w.sock t).peerCredits = p

namespace CreditInv

variable {c : Credited}

private theorem rx_self {v' : VirtioVsock} (ht : rxTarget c.w pkt = some s)
    (hsafe : CreditRepeats c (.rx pkt)) (hh : Handled pkt ((c.w.sock s).credited pkt.hdr) v')
    (hl : v'.state ≠ .LISTENING) : (c.w.sock s).state ≠ .LISTENING ∧ v'.peerCredits =
      if pkt.hdr.op = OP_REQUEST then (c.w.sock s).peerCredits else pkt.hdr.credits := by
  have hl' : (c.w.sock s).state ≠ .LISTENING := fun hs => hl (hh.listening (by simpa using hs))
  refine ⟨hl', ?_⟩
  have hsafe := hsafe s ht
  rw [if_neg hl'] at hsafe
  rw [hh.peerCredits]
  by_cases hr : pkt.hdr.op = OP_REQUEST
  · rw [if_pos hr, credited_request _ hr]
  rw [if_neg hr]
  by_cases hs : pkt.hdr.op = OP_SHUTDOWN
  · rw [credited_shutdown _ hs, hsafe hs]
  · rw [peerCredits_credited, if_pos (storesCredit_of_ne hr hs)]

section
variable (h : CreditInv c)
include h

private theorem rx (hsafe : CreditRepeats c (.rx pkt)) : CreditInv (creditStep c (.rx pkt)) := by
  rcases workRx_cases c.w pkt with ⟨hn, he⟩ | ⟨s, w1, v', ht, hc, -, hh, he⟩
  · have hw : step c.w (.rx pkt) = c.w := he
    have hlast : c.told (.rx pkt) = c.last := by simp only [Credited.told, hn]
    rw [creditStep, hw, hlast]
    exact h
  have hw : step c.w (.rx pkt) = w1.settle s v' := he
  have hnext : (step c.w (.rx pkt)).next = c.w.next := by
    rw [hw, (w1.trails_settle s v').next_eq, hc.next_eq]
  have hlast : c.told (.rx pkt) = if pkt.hdr.op = OP_REQUEST then c.last else
      update c.last s (some pkt.hdr.credits) := by simp only [Credited.told, ht]
  have hs : s < c.w.next := h.sound.fresh s (h.sound.live s (rxTarget_mem ht))
  refine ⟨h.sound.step (.rx pkt), h.noted.step h.sound.fresh (.rx pkt), ?_, ?_⟩
  · intro t p hp
    show t < (step c.w (.rx pkt)).next
    rw [hnext]
    change c.told (.rx pkt) t = some p at hp
    rw [hlast] at hp
    split at hp
    · exact h.told t p hp
    · by_cases hts : t = s
      · rwa [hts]
      · rw [update_of_ne hts] at hp
        exact h.told t p hp
  · intro t p hl hcl hp
    change ((step c.w (.rx pkt)).sock t).state ≠ _ at hl hcl
    change c.told (.rx pkt) t = some p at hp
    show ((step c.w (.rx pkt)).sock t).peerCredits = p
    rw [hlast] at hp
    rw [hw] at hl hcl ⊢
    by_cases hts : t = s
    · subst hts
      rw [settle_sock_self] at hl hcl ⊢
      obtain ⟨hl', hv⟩ := rx_self ht hsafe hh hl
      rw [hv]
      split
      · rename_i hr
        rw [if_pos hr] at hp
        have hin := h.sound.inTable t (rxTarget_mem ht)
        refine h.recent t p hl' (fun hst => ?_) hp
        rw [hst] at hin
        cases hin
      · rename_i hr
        rw [if_neg hr, update_self] at hp
        exact Option.some.inj hp
    · rw [settle_of_ne _ _ hts, hc.sock_eq] at hl hcl ⊢
      refine h.recent t p hl hcl ?_
      split at hp
      · exact hp
      · rwa [update_of_ne hts] at hp

private theorem call (hr : ∀ pkt, op ≠ .rx pkt) (ha : ∀ s addr l, op ≠ .accept s addr l) :
    CreditInv (creditStep c op) := by
  have hlast : c.told op = c.last := by
    cases op with
    | rx pkt => exact absurd rfl (hr pkt)
    | accept s addr l => exact absurd rfl (ha s addr l)
    | socket | bind | listen | connect | shutdown | close | getsockopt | write | sendto | read | recvfrom | term =>
      rfl
  rw [creditStep, hlast]
  refine ⟨h.sound.step op, h.noted.step h.sound.fresh op, ?_, ?_⟩
  · intro t p hp
    exact Nat.lt_of_lt_of_le (h.told t p hp) (step_follows h.sound.fresh op).next_le
  · intro t p hl hcl hp
    rcases step_change h.sound.fresh op t with he | hch | ⟨rfl, -, -⟩
    · rw [he] at hl hcl ⊢
      exact h.recent t p hl hcl hp
    · obtain ⟨hv, hst⟩ := hch.peerCredits hr
      obtain ⟨hl', hcl'⟩ := hst hl hcl
      rw [hv]
      exact h.recent t p hl' hcl' hp
    · exact absurd (h.told _ p hp) (Nat.lt_irrefl _)

private theorem accepting (hs : s ≠ c.w.next) {entry : AcceptEntry} {queue : List AcceptEntry} (n : Nat)
    (hst : (c.w.sock s).state = .LISTENING)
    (hq : (c.w.sock s).acceptQueue = entry :: queue) (t : SockId) (p : BitVec 32 × BitVec 32)
    (hl : ((c.w.accepting s entry queue n).sock t).state ≠ .LISTENING)
    (hcl : ((c.w.accepting s entry queue n).sock t).state ≠ .CLOSED)
    (hp : update c.last c.w.next (c.w.headCredits s) t = some p) :
    ((c.w.accepting s entry queue n).sock t).peerCredits = p := by
  by_cases htn : t = c.w.next
  · subst htn
    obtain ⟨hdr, hreq, hc⟩ := h.noted s entry (by rw [hq]; exact List.mem_cons_self)
    have hhead : c.w.headCredits s = some hdr.credits := by simp [headCredits, hq, hreq]
    rw [update_self, hhead] at hp
    rw [accepting_next, ← Option.some.inj hp, ← hc]
    rfl
  · rw [update_of_ne htn] at hp
    by_cases hts : t = s
    · subst hts
      rw [accepting_self _ _ _ _ hs, poppedClear_eq] at hl
      exact absurd hst hl
    · rw [accepting_of_ne _ _ _ _ hts htn] at hl hcl ⊢
      exact h.recent t p hl hcl hp

private theorem accept (s : SockId) (addr : Bool) (l : Option Nat) : CreditInv (creditStep c (.accept s addr l)) := by
  have hsound := h.sound.step (.accept s addr l)
  have hnoted := h.noted.step h.sound.fresh (.accept s addr l)
  have hnext := (step_follows h.sound.fresh (.accept s addr l)).next_le
  have hends := (step_ends h.sound.fresh (.accept s addr l)).1
  simp only [creditStep, Credited.told]
  generalize step c.w (.accept s addr l) = w' at *
  refine ⟨hsound, hnoted, ?_, ?_⟩
  · intro t p hp
    dsimp only at hp ⊢
    split at hp
    · rename_i hlt
      by_cases htn : t = c.w.next
      · rwa [htn]
      · rw [update_of_ne htn] at hp
        exact Nat.lt_of_lt_of_le (h.told t p hp) hnext
    · exact Nat.lt_of_lt_of_le (h.told t p hp) hnext
  · intro t p hl hcl hp
    dsimp only at hl hcl hp ⊢
    cases hends with
    | settles ho => cases ho
    | quiet hq =>
      rw [hq.calm.next_eq, if_neg (Nat.lt_irrefl _)] at hp
      rw [hq.calm.sock_eq] at hl hcl ⊢
      exact h.recent t p hl hcl hp
    | acceptFailed hst _ hc =>
      rw [modify_next, hc.next_eq, if_neg (Nat.lt_irrefl _)] at hp
      by_cases hts : t = s
      · subst hts
        rw [modify_self, hc.sock_eq] at hl
        exact absurd hst hl
      · rw [modify_of_ne _ _ hts, hc.sock_eq] at hl hcl ⊢
        exact h.recent t p hl hcl hp
    | accepted hst hq hs =>
      rw [if_pos (by exact Nat.lt_succ_self _)] at hp
      exact h.accepting hs _ hst hq t p hl hcl hp

theorem step (hsafe : CreditRepeats c op) : CreditInv (creditStep c op) := by
  cases op with
  | rx pkt => exact h.rx hsafe
  | accept s addr l => exact h.accept s addr l
  | socket | bind | listen | connect | shutdown | close | getsockopt | write | sendto | read | recvfrom | term =>
    exact h.call (by simp) (by simp)

end

theorem init (cid : BitVec 32) (env : Nat → Outcome) : CreditInv (Credited.init cid env) := by
  refine ⟨tableSound_init cid env, ?_, ?_, ?_⟩
  · intro s e he
    cases he
  · intro t p hp
    cases hp
  · intro t p _ _ hp
    cases hp

private theorem creditRecent (h : CreditInv c) : CreditRecent c := by
  intro s _ hst p hp
  refine h.recent s p ?_ ?_ hp
  · rcases hst with hst | hst <;> simp [hst]
  · rcases hst with hst | hst <;> simp [hst]

end CreditInv

private theorem listeningKept_of_safe {c : Credited} (hsafe : CreditRepeats c op) : ListeningKept c op := by
  cases op with
  | rx pkt =>
    intro s _ hl
    rcases workRx_cases c.w pkt with ⟨-, he⟩ | ⟨t, w1, v', ht, hc, -, hh, he⟩
    · rw [show step c.w (.rx pkt) = c.w from he]
    rw [show step c.w (.rx pkt) = w1.settle t v' from he]
    by_cases hst : s = t
    · subst hst
      have hsafe := hsafe s ht
      rw [if_pos hl] at hsafe
      rw [settle_sock_self, hh.peerCredits]
      rcases hsafe with ho | ho | hcr
      · rw [credited_request _ ho]
      · rw [credited_shutdown _ ho]
      · rw [peerCredits_credited, hcr, ite_self]
    · rw [settle_of_ne _ _ hst, hc.sock_eq]
  | socket | bind | listen | connect | accept | shutdown | close | getsockopt | write | sendto | read | recvfrom
  | term =>
    trivial

/-- In such a run every connected or connecting socket always has the credit it was told last, and no packet changes a
listening socket. -/
theorem peerCredit_of_run (cid : BitVec 32) (env : Nat → Outcome) (ops : List Op)
    (h : Meets creditStep CreditRepeats (Credited.init cid env) ops) :
    Always creditStep CreditRecent (Credited.init cid env) ops ∧
      Meets creditStep ListeningKept (Credited.init cid env) ops := by
  constructor
  · exact h.always (fun _ _ hi hsafe => hi.step hsafe) (fun _ hi => hi.creditRecent) (CreditInv.init cid env)
  · exact h.imp fun _ _ hsafe => listeningKept_of_safe hsafe

/-- A connection whose peer updates its credit. -/
theorem peerCredit_updated : Always creditStep CreditRecent (Credited.init 3 fun _ => .good)
      (serveOne ++ [.rx (peerPacket OP_CREDIT_UPDATE 200 7 [])]) ∧
    Meets creditStep ListeningKept (Credited.init 3 fun _ => .good)
      (serveOne ++ [.rx (peerPacket OP_CREDIT_UPDATE 200 7 [])]) := by
  refine peerCredit_of_run 3 (fun _ => .good) _ ⟨trivial, trivial, trivial, ?_, trivial, ?_, trivial⟩
  · intro s hs
    obtain rfl : 0 = s := by
      have ht : some 0 = some s := hs
      exact Option.some.inj ht
    exact .inl rfl
  · intro s hs
    obtain rfl : 1 = s := by
      have ht : some 1 = some s := hs
      exact Option.some.inj ht
    intro ho
    revert ho
    decide

/-- The credit of a `SHUTDOWN` packet is not stored. -/
theorem not_peerCredit_of_run : ¬ ∀ (cid : BitVec 32) (env : Nat → Outcome) (ops : List Op),
      Always creditStep CreditRecent (Credited.init cid env) ops ∧
        Meets creditStep ListeningKept (Credited.init cid env) ops := by
  intro h
  have hrecent := (h 3 (fun _ => .good) (serveOne ++ [.rx (peerPacket OP_CREDIT_UPDATE 200 7 []),
    .rx (peerShutdown 1)])).1.last 1 rfl (.inl rfl) (100, 0) rfl
  revert hrecent
  decide

open List UkVsockBuffer

/-! ### The two ends -/

structure Conn where
  w : World
  /-- The packets of the peer that are under way, oldest first. -/
  inbound : List Packet
  /-- The number of packets of `w.sent` that have reached the peer. -/
  seen : Nat
  peerSent : Nat
  peerBufAlloc : BitVec 32
  peerFwdCnt : BitVec 32
  /-- The payloads delivered to the layer, and the bytes returned to the application. -/
  delivered : List UInt8
  returned : List UInt8

variable (k : UkVsockConnId)

/-- The header of a packet of the peer of the connection `k`. -/
def UkVsockConnId.inHdr (op : BitVec 16) (len flags bufAlloc fwdCnt : BitVec 32) : VirtioVsockHdr where
  srcCid := k.peer.cid.setWidth 64
  dstCid := k.localAddr.cid.setWidth 64
  srcPort := k.peer.port
  dstPort := k.localAddr.port
  len := len
  type := k.type.virtio
  op := op
  flags := flags
  bufAlloc := bufAlloc
  fwdCnt := fwdCnt

/-- Does a packet of the layer belong to the connection `k`? -/
def UkVsockConnId.owns (hdr : VirtioVsockHdr) : Bool :=
  hdr.dstCid == k.peer.cid.setWidth 64 && hdr.dstPort == k.peer.port && hdr.srcPort == k.localAddr.port &&
    hdr.type == k.type.virtio

inductive ConnEv
  | peerSend (payload : List UInt8) (flags bufAlloc fwdCnt : BitVec 32)
  | peerCredit (request : Bool) (bufAlloc fwdCnt : BitVec 32)
  | peerReceive
  | deliver
  | read (iov : List Nat)
  | recvfrom (len : Nat) (src : Bool)
  | write (iov : List (List UInt8))
  | sendto (buf : List UInt8) (destAddr : Bool) (addrlen : Nat)

def returnedBytes : Except Errno (List UInt8) → List UInt8
  | .ok bytes => bytes
  | .error _ => []

def Conn.peerWindow (c : Conn) : BitVec 32 := c.peerBufAlloc - (BitVec.ofNat 32 c.peerSent - c.peerFwdCnt)

def connStep (s : SockId) (c : Conn) : ConnEv → Conn
  | .peerSend payload flags bufAlloc fwdCnt =>
    if payload.length ≤ c.peerWindow.toNat then
      { c with
        inbound := c.inbound ++
          [⟨k.inHdr OP_RW (BitVec.ofNat 32 payload.length) flags bufAlloc fwdCnt, payload⟩]
        peerSent := c.peerSent + payload.length }
    else c
  | .peerCredit request bufAlloc fwdCnt =>
    let op := if request then OP_CREDIT_REQUEST else OP_CREDIT_UPDATE
    { c with inbound := c.inbound ++ [⟨k.inHdr op 0 0 bufAlloc fwdCnt, []⟩] }
  | .peerReceive =>
    match c.w.sent[c.seen]? with
    | none => c
    | some x =>
      if k.owns x.pkt.hdr then
        { c with seen := c.seen + 1, peerBufAlloc := x.pkt.hdr.bufAlloc, peerFwdCnt := x.pkt.hdr.fwdCnt }
      else { c with seen := c.seen + 1 }
  | .deliver =>
    match c.inbound with
    | [] => c
    | pkt :: inbound =>
      { c with
        w := (virtioVsockdevWorkRx c.w pkt).1
        inbound := inbound
        delivered := c.delivered ++ pkt.payload }
  | .read iov =>
    let r := vsockRead c.w s iov
    { c with w := r.1, returned := c.returned ++ returnedBytes r.2 }
  | .recvfrom len src =>
    let r := vsockRecvfrom c.w s len src
    { c with w := r.1, returned := c.returned ++ returnedBytes r.2 }
  | .write iov => { c with w := (vsockWrite c.w s iov).1 }
  | .sendto buf destAddr addrlen => { c with w := (vsockSendto c.w s buf destAddr addrlen).1 }

structure Attached (k : UkVsockConnId) (s : SockId) (w : World) : Prop where
  key_eq : (w.sock s).key = k
  mem : s ∈ w.sockets
  unique : ∀ t ∈ w.sockets, (w.sock t).key = k → t = s
  cid_eq : k.localAddr.cid = w.cid
  type_eq : (w.sock s).type = k.type.virtio
  state_eq : (w.sock s).state = .OPEN

/-- A new connection: nothing is under way, and the peer knows the credit that came with the request or response that
opened the connection. -/
def Conn.start (w : World) (s : SockId) : Conn where
  w := w
  inbound := []
  seen := w.sent.length
  peerSent := 0
  peerBufAlloc := (w.sock s).rx.bufAlloc
  peerFwdCnt := (w.sock s).rx.fwdCnt
  delivered := []
  returned := []

def PeerPacket (pkt : Packet) : Prop :=
  (∃ flags bufAlloc fwdCnt, pkt.payload.length < 2 ^ 32 ∧
    pkt.hdr = k.inHdr OP_RW (BitVec.ofNat 32 pkt.payload.length) flags bufAlloc fwdCnt) ∨
  (pkt.payload = [] ∧ ∃ op bufAlloc fwdCnt, (op = OP_CREDIT_REQUEST ∨ op = OP_CREDIT_UPDATE) ∧
    pkt.hdr = k.inHdr op 0 0 bufAlloc fwdCnt)

/-- The credit fields of the packets of the layer that belong to the connection. -/
def UkVsockConnId.creditsOf (l : List Sent) : List (BitVec 32 × BitVec 32) :=
  (l.filter fun x => k.owns x.pkt.hdr).map fun x => (x.pkt.hdr.bufAlloc, x.pkt.hdr.fwdCnt)

structure RecvRel (k : UkVsockConnId) (s : SockId) (f : Credit.Flow) (c : Conn) : Prop where
  attached : Attached k s c.w
  capacity_eq : (c.w.sock s).rx.capacity = 4096
  processed_eq : (c.w.sock s).rx.totalProcessed = BitVec.ofNat 64 f.consumed
  stream_eq : c.returned ++ (c.w.sock s).rx.contents = c.delivered
  consumed_eq : c.returned.length = f.consumed
  arrived_eq : c.delivered.length = f.arrived
  sent_eq : c.peerSent = f.sent
  inbound_eq : f.arrived + (c.inbound.map fun pkt => pkt.payload.length).sum = f.sent
  inbound_ok : ∀ pkt ∈ c.inbound, PeerPacket k pkt
  bufAlloc_eq : c.peerBufAlloc = BitVec.ofNat 32 4096
  known_eq : c.peerFwdCnt = BitVec.ofNat 32 f.known
  seen_le : c.seen ≤ c.w.sent.length
  credits_eq : k.creditsOf (c.w.sent.drop c.seen) = f.credits.map fun n => (BitVec.ofNat 32 4096, BitVec.ofNat 32 n)

def RecvInv (s : SockId) (c : Conn) : Prop := ∃ f, f.Ok 4096 ∧ RecvRel k s f c

section
variable {k : UkVsockConnId} {s : SockId} {c : Conn} {w' : World} {w : World} {pkt : Packet}
    {g : VirtioVsock → VirtioVsock}

private theorem Attached.calm (h : Attached k s w) (hc : w.Calm w') : Attached k s w' where
  key_eq := by rw [hc.sock_eq]; exact h.key_eq
  mem := by rw [hc.sockets_eq]; exact h.mem
  unique := by rw [hc.sockets_eq, hc.sock_eq]; exact h.unique
  cid_eq := h.cid_eq.trans hc.cid_eq.symm
  type_eq := by rw [hc.sock_eq]; exact h.type_eq
  state_eq := by rw [hc.sock_eq]; exact h.state_eq

private theorem Attached.modify (h : Attached k s w) (hk : (g (w.sock s)).key = (w.sock s).key)
    (ht : (g (w.sock s)).type = (w.sock s).type)
    (hs : (g (w.sock s)).state = (w.sock s).state) : Attached k s (w.modify s g) where
  key_eq := by rw [modify_self, hk]; exact h.key_eq
  mem := h.mem
  unique t ht := by rw [w.modify_key t hk]; exact h.unique t ht
  cid_eq := h.cid_eq
  type_eq := by rw [modify_self, ht]; exact h.type_eq
  state_eq := by rw [modify_self, hs]; exact h.state_eq

section
variable (h : RecvInv k s c) {n : Nat}
include h

private theorem RecvInv.calm (hc : c.w.Calm w') (hs : w'.sent = c.w.sent) : RecvInv k s { c with w := w' } := by
  obtain ⟨f, hf, h⟩ := h
  refine ⟨f, hf, { h with
    attached := h.attached.calm hc, capacity_eq := ?_, processed_eq := ?_, stream_eq := ?_,
    seen_le := ?_, credits_eq := ?_ }⟩ <;> simp only [hc.sock_eq, hs]
  · exact h.capacity_eq
  · exact h.processed_eq
  · exact h.stream_eq
  · exact h.seen_le
  · exact h.credits_eq

private theorem RecvInv.xmit (hc : c.w.Calm w') {x : Sent} (hs : w'.sent = c.w.sent ++ [x])
    (hb : x.pkt.hdr.bufAlloc = (c.w.sock s).rx.bufAlloc) (hx : x.pkt.hdr.fwdCnt = (c.w.sock s).rx.fwdCnt) :
    RecvInv k s { c with w := w' } := by
  obtain ⟨f, hf, h⟩ := h
  have hfwd : x.pkt.hdr.fwdCnt = BitVec.ofNat 32 f.consumed := by
    rw [hx, fwdCnt, h.processed_eq, BitVec.setWidth_ofNat_of_le (by decide)]
  have hbuf : x.pkt.hdr.bufAlloc = BitVec.ofNat 32 4096 := by rw [hb, bufAlloc, h.capacity_eq]
  have hcr : k.creditsOf (w'.sent.drop c.seen) = (f.credits.map fun n => (BitVec.ofNat 32 4096, BitVec.ofNat 32 n)) ++
      if k.owns x.pkt.hdr then [(BitVec.ofNat 32 4096, BitVec.ofNat 32 f.consumed)] else [] := by
    rw [hs, drop_append_of_le_length h.seen_le, ← h.credits_eq, ← hbuf, ← hfwd]
    cases ho : k.owns x.pkt.hdr <;> simp [UkVsockConnId.creditsOf, filter_append, ho]
  have hlen : c.seen ≤ w'.sent.length := by
    rw [hs, length_append]
    exact Nat.le_add_right_of_le h.seen_le
  have hcap : (w'.sock s).rx = (c.w.sock s).rx := by rw [hc.sock_eq]
  -- Packets of other connections do not reach the peer, and the others are one more credit under way.
  cases ho : k.owns x.pkt.hdr with
  | false =>
    exact ⟨f, hf, { h with
      attached := h.attached.calm hc, capacity_eq := hcap ▸ h.capacity_eq, processed_eq := hcap ▸ h.processed_eq
      stream_eq := hcap ▸ h.stream_eq, seen_le := hlen, credits_eq := by simpa [ho] using hcr }⟩
  | true =>
    exact ⟨f.advertise, hf.advertise, { h with
      attached := h.attached.calm hc, capacity_eq := hcap ▸ h.capacity_eq, processed_eq := hcap ▸ h.processed_eq
      stream_eq := hcap ▸ h.stream_eq, seen_le := hlen
      credits_eq := by simpa [ho, Credit.Flow.advertise] using hcr }⟩

private theorem RecvInv.modify (hk : (g (c.w.sock s)).key = (c.w.sock s).key)
    (ht : (g (c.w.sock s)).type = (c.w.sock s).type)
    (hs : (g (c.w.sock s)).state = (c.w.sock s).state) (hr : (g (c.w.sock s)).rx = (c.w.sock s).rx) :
    RecvInv k s { c with w := c.w.modify s g } := by
  obtain ⟨f, hf, h⟩ := h
  have hrx : ((c.w.modify s g).sock s).rx = (c.w.sock s).rx := by rw [modify_self, hr]
  exact ⟨f, hf, { h with
    attached := h.attached.modify hk ht hs, capacity_eq := hrx ▸ h.capacity_eq, processed_eq := hrx ▸ h.processed_eq
    stream_eq := hrx ▸ h.stream_eq }⟩

private theorem RecvInv.readBytes (hn : n ≤ (c.w.sock s).rx.count) : RecvInv k s { c with
      w := c.w.modify s (·.readBytes n), returned := c.returned ++ (c.w.sock s).rx.contents.take n } := by
  obtain ⟨f, hf, h⟩ := h
  have hlen : c.returned.length + (c.w.sock s).rx.count = c.delivered.length := by
    rw [← h.stream_eq, length_append, length_contents]
  have hrx : ((c.w.modify s (·.readBytes n)).sock s).rx = ukVsockBufferConsume (c.w.sock s).rx n := by
    rw [modify_self]; rfl
  refine ⟨f.consume n, hf.consume ?_, { h with
    attached := h.attached.modify (g := (·.readBytes n)) rfl rfl rfl, capacity_eq := ?_, processed_eq :=
      ?_, stream_eq := ?_
    consumed_eq := ?_ }⟩
  · rw [← h.consumed_eq, ← h.arrived_eq, ← hlen]
    omega
  · rw [hrx]
    exact h.capacity_eq
  · rw [hrx, Credit.Flow.consume, BitVec.ofNat_add, ← h.processed_eq]
    rfl
  · rw [hrx, contents_consume _ hn, append_assoc, take_append_drop]
    exact h.stream_eq
  · rw [length_append, length_take, length_contents, Nat.min_eq_left hn, h.consumed_eq]
    rfl

private theorem RecvInv.xmitHdr {hdr : VirtioVsockHdr} (a : Option Nat)
    (hb : hdr.bufAlloc = (c.w.sock s).rx.bufAlloc) (hx : hdr.fwdCnt = (c.w.sock s).rx.fwdCnt) :
    RecvInv k s { c with w := (xmitHdr c.w hdr a).1 } := by
  have hc := xmitHdr_calm c.w hdr a
  rcases xmitHdr_cases c.w hdr a with ⟨n, he⟩ | ⟨n, e, -, -, he⟩
  · rw [he] at hc ⊢
    exact h.xmit hc rfl hb hx
  · rw [he] at hc ⊢
    exact h.calm hc rfl

private theorem RecvInv.consumeRx (hn : n ≤ (c.w.sock s).rx.count) : RecvInv k s { c with
      w := consumeRx c.w s n, returned := c.returned ++ (c.w.sock s).rx.contents.take n } :=
  (h.readBytes hn).xmitHdr none rfl rfl

end

private theorem RecvInv.readLoop (iov : List Nat) (c : Conn) (ret : List UInt8)
    (h : RecvInv k s { c with returned := c.returned ++ ret }) :
    RecvInv k s { c with
      w := (readLoop s iov c.w ret).1, returned := c.returned ++ returnedBytes (readLoop s iov c.w ret).2 } := by
  induction iov generalizing c ret with
  | nil => exact h
  | cons len iov ih =>
    unfold Vsock.readLoop
    dsimp only
    split
    · rename_i h0
      have hret : returnedBytes (if ret.length = 0 then
          (if !(c.w.sock s).rxShutdown then .error .EAGAIN else .ok []) else .ok ret) = ret := by
        by_cases hr : ret.length = 0
        · rw [if_pos hr, length_eq_zero_iff.1 hr]
          cases (c.w.sock s).rxShutdown <;> rfl
        · rw [if_neg hr]; rfl
      rw [hret]
      exact h
    · rename_i h0
      have hlen := bufferRead_length (c.w.sock s).rx len
      have hout := bufferRead_eq_take_length (c.w.sock s).rx len
      have hc := h.consumeRx (n := (ukVsockBufferRead (c.w.sock s).rx len).length) (by dsimp only; omega)
      refine ih { c with w := Vsock.consumeRx c.w s (ukVsockBufferRead (c.w.sock s).rx len).length } _ ?_
      rw [← append_assoc]
      dsimp only at hc ⊢
      rwa [← hout] at hc

section
variable (h : RecvInv k s c)
include h

private theorem RecvInv.clearIfEmpty : RecvInv k s { c with w := clearIfEmpty c.w s } := by
  rw [clearIfEmpty_eq]
  refine h.modify ?_ ?_ ?_ ?_ <;> rw [VirtioVsock.clearIfEmpty_eq]
  rfl

private theorem RecvInv.read (iov : List Nat) : RecvInv k s (connStep k s c (.read iov)) := by
  obtain ⟨f, hf, h'⟩ := h
  have hs := h'.attached.state_eq
  simp only [connStep, vsockRead, hs, ne_eq, not_true_eq_false, false_and, if_false]
  exact (RecvInv.readLoop iov c [] (by rw [append_nil]; exact ⟨f, hf, h'⟩)).clearIfEmpty

private theorem RecvInv.recvfrom (len : Nat) (src : Bool) : RecvInv k s (connStep k s c (.recvfrom len src)) := by
  have hself : RecvInv k s { c with returned := c.returned ++ [] } := by rw [append_nil]; exact h
  simp only [connStep, vsockRecvfrom]
  split
  · exact hself
  split
  · exact hself
  split
  · exact hself
  have hlen := bufferRead_length (c.w.sock s).rx len
  have hout := bufferRead_eq_take_length (c.w.sock s).rx len
  split
  · have hc := h.consumeRx (n := (ukVsockBufferRead (c.w.sock s).rx len).length) (by omega)
    rw [← hout] at hc
    exact hc.clearIfEmpty
  · have hnil : ukVsockBufferRead (c.w.sock s).rx len = [] := length_eq_zero_iff.1 (by omega)
    rw [hnil]
    exact hself.clearIfEmpty

private theorem RecvInv.send (buf : List UInt8) : RecvInv k s { c with w := (virtioVsockSend c.w s buf).1 } := by
  rcases send_cases c.w s buf with ⟨-, he⟩ | ⟨-, -, he⟩ | ⟨-, -, w1, e, hq, hs, -, he⟩ |
    ⟨-, -, -, w1, pkt, n, hq, -, -, ⟨hp, -⟩, hs, he⟩
  · rw [he]
    exact h
  · rw [he]
    exact h
  · rw [he]
    exact h.calm hq.calm hs
  · rw [he]
    exact (h.xmit hq.calm hs (by rw [hp]; rfl) (by rw [hp]; rfl)).modify (g := (·.sentBytes n)) rfl rfl rfl rfl

end

private theorem RecvInv.writeLoop (iov : List (List UInt8)) (h : RecvInv k s c) (written : Nat) :
    RecvInv k s { c with w := (writeLoop s iov c.w written).1 } := by
  induction iov generalizing c written with
  | nil => exact h
  | cons buf iov ih =>
    unfold Vsock.writeLoop
    have hsend := h.send buf
    cases hr : virtioVsockSend c.w s buf with
    | mk w1 r =>
      rw [hr] at hsend
      cases r with
      | error e => exact hsend
      | ok res =>
        dsimp only
        split
        · exact hsend.modify (g := (·.eventClear EPOLLOUT)) rfl rfl rfl rfl
        · exact ih hsend _

private theorem RecvInv.write (h : RecvInv k s c) (iov : List (List UInt8)) :
    RecvInv k s (connStep k s c (.write iov)) := by
  obtain ⟨f, hf, h'⟩ := h
  have hs := h'.attached.state_eq
  simp only [connStep, vsockWrite, hs, ne_eq, not_true_eq_false, if_false]
  exact RecvInv.writeLoop iov ⟨f, hf, h'⟩ 0

private theorem RecvInv.sendto (h : RecvInv k s c) (buf : List UInt8) (a : Bool) (l : Nat) :
    RecvInv k s (connStep k s c (.sendto buf a l)) := by
  simp only [connStep, vsockSendto]
  split
  · exact h
  split
  · exact h
  have hsend := h.send buf
  cases hr : virtioVsockSend c.w s buf with
  | mk w1 r =>
    rw [hr] at hsend
    cases r with
    | error e => exact hsend
    | ok res =>
      dsimp only
      split
      · exact hsend.modify (g := (·.eventClear EPOLLOUT)) rfl rfl rfl rfl
      · exact hsend

private theorem rxTarget_of_attached (h : Attached k s w) (hp : PeerPacket k pkt) : rxTarget w pkt = some s := by
  have hk : w.KeyFree s (w.sock s).key := by
    intro t ht hts heq
    exact hts (h.unique t ht (heq.trans h.key_eq))
  have hc : (w.sock s).localAddr.cid = w.cid := by
    rw [← h.cid_eq, ← h.key_eq]
    rfl
  have hgo {op : BitVec 16} {len flags b f : BitVec 32} (hh : pkt.hdr = k.inHdr op len flags b f)
      (hl : len.toNat ≤ pkt.payload.length) : rxTarget w pkt = some s := by
    have hmatch : (w.sock s).Matches pkt.hdr := by
      rw [hh, ← h.key_eq]
      exact ⟨rfl, ⟨rfl, rfl⟩, rfl, rfl⟩
    exact rxTarget_of_matches h.mem hk hc hmatch (by rw [hh]; exact hl)
  rcases hp with ⟨flags, b, f, hlt, hh⟩ | ⟨hp, op, b, f, -, hh⟩
  · exact hgo hh (Nat.le_of_eq (by rw [BitVec.toNat_ofNat, Nat.mod_eq_of_lt hlt]))
  · exact hgo hh (Nat.zero_le _)

section
variable (h : RecvInv k s c) {inbound : List Packet}
include h

private theorem RecvInv.fits (hi : c.inbound = pkt :: inbound) :
    ∃ rx, ukVsockBufferAppend (c.w.sock s).rx [pkt.payload] = .ok rx ∧
      rx.contents = (c.w.sock s).rx.contents ++ pkt.payload ∧ rx.capacity = (c.w.sock s).rx.capacity ∧
      rx.totalProcessed = (c.w.sock s).rx.totalProcessed := by
  obtain ⟨f, hf, h⟩ := h
  have hlen : c.returned.length + (c.w.sock s).rx.count = c.delivered.length := by
    rw [← h.stream_eq, length_append, length_contents]
  have hsum := h.inbound_eq
  rw [hi, map_cons, sum_cons] at hsum
  have hfit := hf.fits
  have hcons := h.consumed_eq
  have harr := h.arrived_eq
  have hcap := h.capacity_eq
  rcases bufferAppend_spec (c.w.sock s).rx [pkt.payload] with ⟨-, rx, ha, hcont, hc, ht⟩ | ⟨hbig, -⟩
  · exact ⟨rx, ha, by simpa using hcont, hc, ht⟩
  · simp only [flatten_cons, flatten_nil, append_nil] at hbig
    omega

private theorem RecvInv.append (hi : c.inbound = pkt :: inbound) (rx : UkVsockBuffer)
    (hcont : rx.contents = (c.w.sock s).rx.contents ++ pkt.payload) (hcap : rx.capacity = (c.w.sock s).rx.capacity)
    (htot : rx.totalProcessed = (c.w.sock s).rx.totalProcessed) :
    RecvInv k s { c with
      w := c.w.modify s fun v => { v with rx := rx }, inbound := inbound, delivered :=
  c.delivered ++ pkt.payload } := by
  obtain ⟨f, hf, h⟩ := h
  have hsum := h.inbound_eq
  rw [hi, map_cons, sum_cons] at hsum
  have hrx : ((c.w.modify s fun v => { v with rx := rx }).sock s).rx = rx := by rw [modify_self]
  refine ⟨f.arrive pkt.payload.length, hf.arrive (by omega), { h with
    attached := h.attached.modify (g := fun v => { v with rx := rx }) rfl rfl rfl
    capacity_eq := ?_, processed_eq := ?_, stream_eq := ?_, arrived_eq := ?_, inbound_eq := ?_, inbound_ok := ?_ }⟩
  · rw [hrx, hcap]
    exact h.capacity_eq
  · rw [hrx, htot]
    exact h.processed_eq
  · rw [hrx, hcont, ← append_assoc, h.stream_eq]
  · rw [length_append]
    exact congrArg (· + pkt.payload.length) h.arrived_eq
  · exact (Nat.add_assoc ..).trans hsum
  · exact fun p hp => h.inbound_ok p (by rw [hi]; exact mem_cons_of_mem _ hp)

private theorem RecvInv.credited (hdr : VirtioVsockHdr) :
    RecvInv k s { c with w := c.w.modify s (·.credited hdr) } := by
  refine h.modify ?_ ?_ ?_ ?_ <;> rw [credited_eq]
  rfl

private theorem RecvInv.deliver : RecvInv k s (connStep k s c .deliver) := by
  unfold connStep
  cases hi : c.inbound with
  | nil => exact h
  | cons pkt inbound =>
    dsimp only
    have hc := h.credited pkt.hdr
    have hrx : ((c.w.modify s (·.credited pkt.hdr)).sock s).rx = (c.w.sock s).rx := by
      rw [modify_self, credited_eq]
    have hst : ((c.w.modify s (·.credited pkt.hdr)).sock s).state = .OPEN := by
      obtain ⟨f, -, hr⟩ := hc
      exact hr.attached.state_eq
    obtain ⟨rx, ha, hcont, hcap, htot⟩ := h.fits hi
    obtain ⟨hp, ht⟩ : PeerPacket k pkt ∧ rxTarget c.w pkt = some s := by
      obtain ⟨f, -, hr⟩ := h
      have hp := hr.inbound_ok pkt (by rw [hi]; exact mem_cons_self)
      exact ⟨hp, rxTarget_of_attached hr.attached hp⟩
    have hw : virtioVsockdevWorkRx c.w pkt = rxHandler (c.w.modify s (·.credited pkt.hdr)) s pkt := by
      have hs : (c.w.sock s).state ≠ .LISTENING := by
        rw [modify_self, credited_state] at hst
        simp [hst]
      rw [workRx_of_target ht, if_neg hs]
    rw [hw]
    rcases hp with ⟨flags, b, n, -, hh⟩ | ⟨hp, op, b, n, hop, hh⟩
    · have ho : pkt.hdr.op = OP_RW := by rw [hh]; rfl
      have hrw : (rxHandler (c.w.modify s (·.credited pkt.hdr)) s pkt).1 =
          ((c.w.modify s (·.credited pkt.hdr)).modify s fun v => { v with rx := rx }).modify s
            (·.eventSet EPOLLIN) := by
        rw [modify_modify]
        simp only [rxHandler, ho, ukVsockRxPayload, hst, hrx, ha]
        rfl
      rw [hrw]
      exact (hc.append hi rx (by rw [hrx]; exact hcont) (by rw [hrx]; exact hcap) (by rw [hrx]; exact htot)).modify
        rfl rfl rfl rfl
    · have hid : (c.w.modify s fun v => { v with rx := (c.w.sock s).rx }) = c.w := by simp [World.modify]
      have hnil := h.append hi (c.w.sock s).rx (by rw [hp, append_nil]) rfl rfl
      rw [hid] at hnil
      have hnil := hnil.credited pkt.hdr
      rcases hop with rfl | rfl
      · have ho : pkt.hdr.op = OP_CREDIT_REQUEST := by rw [hh]; rfl
        have hrx : rxHandler (c.w.modify s (·.credited pkt.hdr)) s pkt =
            virtioVsockWorkCreditRequest (c.w.modify s (·.credited pkt.hdr)) s := by
          simp only [rxHandler, ho]
          rfl
        rw [hrx]
        exact hnil.xmitHdr none rfl rfl
      · have ho : pkt.hdr.op = OP_CREDIT_UPDATE := by rw [hh]; rfl
        have hrx : rxHandler (c.w.modify s (·.credited pkt.hdr)) s pkt =
          (c.w.modify s (·.credited pkt.hdr), .ok ()) := by
          simp only [rxHandler, ho]
          rfl
        rw [hrx]
        exact hnil

private theorem RecvInv.peerReceive : RecvInv k s (connStep k s c .peerReceive) := by
  unfold connStep
  cases hx : c.w.sent[c.seen]? with
  | none => exact h
  | some x =>
    dsimp only
    obtain ⟨f, hf, h⟩ := h
    obtain ⟨hlt, hxe⟩ := List.getElem?_eq_some_iff.1 hx
    have hdrop : c.w.sent.drop c.seen = x :: c.w.sent.drop (c.seen + 1) := by
      rw [drop_eq_getElem_cons hlt, hxe]
    have hcr := h.credits_eq
    rw [hdrop] at hcr
    cases ho : k.owns x.pkt.hdr with
    | false =>
      refine ⟨f, hf, { h with seen_le := hlt, credits_eq := ?_ }⟩
      rw [← hcr]
      simp [UkVsockConnId.creditsOf, ho]
    | true =>
      -- The packet is one of those that were counted when they were transmitted.
      cases hl : f.credits with
      | nil =>
        rw [hl] at hcr
        simp [UkVsockConnId.creditsOf, ho] at hcr
      | cons n l =>
        rw [hl] at hcr
        simp only [UkVsockConnId.creditsOf, filter_cons, ho, if_true, map_cons, List.cons.injEq,
          Prod.mk.injEq] at hcr
        exact ⟨_, hf.learn hl, { h with
          bufAlloc_eq := hcr.1.1, known_eq := hcr.1.2, seen_le := hlt, credits_eq := hcr.2 }⟩

private theorem RecvInv.peerCredit (request : Bool) (b n : BitVec 32) :
    RecvInv k s (connStep k s c (.peerCredit request b n)) := by
  obtain ⟨f, hf, h⟩ := h
  refine ⟨f, hf, { h with inbound_eq := ?_, inbound_ok := ?_ }⟩
  · simpa [connStep] using h.inbound_eq
  · intro pkt hp
    rcases mem_append.1 hp with hp | hp
    · exact h.inbound_ok pkt hp
    · rw [mem_singleton.1 hp]
      refine .inr ⟨rfl, _, b, n, ?_, rfl⟩
      cases request <;> simp

private theorem RecvInv.peerSend (payload : List UInt8) (flags b n : BitVec 32) :
    RecvInv k s (connStep k s c (.peerSend payload flags b n)) := by
  unfold connStep
  dsimp only
  split
  swap
  · exact h
  rename_i hw
  obtain ⟨f, hf, h⟩ := h
  have hlt : payload.length < 2 ^ 32 := Nat.lt_of_le_of_lt hw (BitVec.isLt _)
  -- The sums modulo `2 ^ 32` are exact however many bytes have been sent.
  have hwin : c.peerWindow.toNat = f.known + 4096 - f.sent := by
    rw [Conn.peerWindow, h.bufAlloc_eq, h.sent_eq, h.known_eq]
    exact hf.window (by decide)
  have hle := hf.sent_le
  refine ⟨f.send payload.length, hf.send (by omega), { h with sent_eq := ?_, inbound_eq := ?_, inbound_ok := ?_ }⟩
  · exact congrArg (· + payload.length) h.sent_eq
  · simp only [map_append, sum_append, map_cons, map_nil, sum_singleton]
    rw [← Nat.add_assoc]
    exact congrArg (· + payload.length) h.inbound_eq
  · intro pkt hp
    rcases mem_append.1 hp with hp | hp
    · exact h.inbound_ok pkt hp
    · rw [mem_singleton.1 hp]
      exact .inl ⟨flags, b, n, hlt, rfl⟩

end

private theorem recvInv_start (ha : Attached k s w) (hrx : (w.sock s).rx = ukVsockBufferInit 4096 (by decide)) :
    RecvInv k s (Conn.start w s) := by
  refine ⟨⟨0, 0, [], 0, 0⟩, ⟨pairwise_singleton _ _, ?_, Nat.le_refl _, Nat.le_refl _, Nat.zero_le _⟩, ?_⟩
  · intro n hn
    exact Nat.le_of_eq (mem_singleton.1 hn)
  · constructor
    case attached => exact ha
    case inbound_ok => exact fun _ hp => by cases hp
    case credits_eq => simp [Conn.start, UkVsockConnId.creditsOf]
    case stream_eq => simp [Conn.start, hrx, contents_init]
    all_goals simp [Conn.start, hrx, ukVsockBufferInit, bufAlloc, fwdCnt]

/-- Every event of a connection keeps the invariant. -/
theorem RecvInv.step (h : RecvInv k s c) (ev : ConnEv) : RecvInv k s (connStep k s c ev) := by
  cases ev with
  | peerSend payload flags b n => exact h.peerSend payload flags b n
  | peerCredit request b n => exact h.peerCredit request b n
  | peerReceive => exact h.peerReceive
  | deliver => exact h.deliver
  | read iov => exact h.read iov
  | recvfrom len src => exact h.recvfrom len src
  | write iov => exact h.write iov
  | sendto buf a l => exact h.sendto buf a l

end

/-- On a new connection the next payload always fits in the receive buffer, and the bytes that were read followed by
those in the buffer are the bytes that were delivered. -/
theorem receive_no_loss {w : World} {s : SockId} (ha : Attached (w.sock s).key s w)
    (hrx : (w.sock s).rx = ukVsockBufferInit 4096 (by decide)) (evs : List ConnEv) :
    let c := Runs.run (connStep (w.sock s).key s) (Conn.start w s) evs
    (∀ pkt ∈ c.inbound.head?, ukVsockBufferAppend (c.w.sock s).rx [pkt.payload] ≠ .error .ENOSPC) ∧
      c.returned ++ (c.w.sock s).rx.contents = c.delivered := by
  intro c
  have hinv : RecvInv (w.sock s).key s c :=
    Runs.run_invariant (fun _ ev h => h.step ev) (recvInv_start ha hrx) evs
  refine ⟨fun pkt hp => ?_, ?_⟩
  · obtain ⟨inbound, hi⟩ : ∃ inbound, c.inbound = pkt :: inbound := by
      cases hc : c.inbound with
      | nil => rw [hc] at hp; cases hp
      | cons p inbound =>
        rw [hc] at hp
        exact ⟨inbound, by rw [Option.mem_some_iff.1 hp]⟩
    obtain ⟨rx, hok, -⟩ := hinv.fits hi
    rw [hok]
    exact fun h => by cases h
  · obtain ⟨f, -, h⟩ := hinv
    exact h.stream_eq

/-- The peer of a server sends three bytes, of which the application reads two. -/
theorem receive_no_loss_served :
    Attached (served.sock 1).key 1 served ∧ (served.sock 1).rx = ukVsockBufferInit 4096 (by decide) ∧
      let c := Runs.run (connStep (served.sock 1).key 1) (Conn.start served 1)
        [.peerSend [7, 8, 9] 0 100 0, .deliver, .read [2], .peerReceive]
      (∀ pkt ∈ c.inbound.head?, ukVsockBufferAppend (c.w.sock 1).rx [pkt.payload] ≠ .error .ENOSPC) ∧
        c.returned ++ (c.w.sock 1).rx.contents = c.delivered := by
  have ha : Attached (served.sock 1).key 1 served :=
    { key_eq := rfl, mem := by decide, unique := by decide, cid_eq := rfl, type_eq := rfl, state_eq := rfl }
  exact ⟨ha, rfl, receive_no_loss ha rfl _⟩

end Unikraft.Vsock
