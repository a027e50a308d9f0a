import Unikraft.Vsock.Change

/-!
# The socket table

The table `sockets` is meant to hold exactly the sockets in the states `BOUND`, `LISTENING`, `WAIT_CONNECT` and
`OPEN`, under different keys and with the CID of the device (`TableOk`). But `vsock_accept4` inserts a connection that
is already in the table, and `vsock_connect` reinserts a bound socket under the key of another connection. In a run
without such calls (`TableSafe`) the table is in order.
-/

namespace Unikraft.Vsock

open List OrdSet UkVsockState VirtioVsock World

structure TableSound (w : World) : Prop where
  fresh : w.Fresh
  nodup : w.sockets.Nodup
  live : ∀ t ∈ w.sockets, w.live t = true
  inTable : ∀ t ∈ w.sockets, (w.sock t).state.inTable = true
  cid_eq : ∀ t, w.live t = true → (w.sock t).state.inTable = true → (w.sock t).localAddr.cid = w.cid
  key_inj : ∀ t ∈ w.sockets, ∀ u ∈ w.sockets, (w.sock t).key = (w.sock u).key → t = u

def World.KeyFree (w : World) (s : SockId) (k : UkVsockConnId) : Prop := ∀ t ∈ w.sockets, t ≠ s → (w.sock t).key ≠ k

variable {s : SockId} {f : VirtioVsock → VirtioVsock} {w : World} {t : SockId} {port : BitVec 32}

theorem World.modify_key (w : World) (t : SockId)
    (hk : (f (w.sock s)).key = (w.sock s).key) : ((w.modify s f).sock t).key = (w.sock t).key := by
  by_cases hts : t = s
  · rw [hts, modify_self, hk]
  · rw [modify_of_ne _ _ hts]

private theorem World.mem_rbInsert (h : t ∈ (w.rbInsert s).sockets) : t = s ∨ t ∈ w.sockets := by
  rcases insert_fst ukVsockSockaddrCmp w.keyOf s w.sockets with ⟨-, hp⟩ | he
  · exact mem_cons.1 (hp.mem_iff.1 h)
  · right
    have h' : t ∈ (insert ukVsockSockaddrCmp w.keyOf s w.sockets).1 := h
    rwa [he] at h'

private theorem World.mem_rbInsert_of_mem (s : SockId) (h : t ∈ w.sockets) : t ∈ (w.rbInsert s).sockets := by
  show t ∈ (insert ukVsockSockaddrCmp w.keyOf s w.sockets).1
  rcases insert_fst ukVsockSockaddrCmp w.keyOf s w.sockets with ⟨-, hp⟩ | he
  · exact hp.mem_iff.2 (mem_cons_of_mem _ h)
  · rwa [he]

private theorem World.mem_rbInsert_of_ne (hts : t ≠ s) : t ∈ (w.rbInsert s).sockets ↔ t ∈ w.sockets :=
  ⟨fun h => (mem_rbInsert h).resolve_left hts, mem_rbInsert_of_mem s⟩

private theorem World.mem_rbReinsert_of_ne (hts : t ≠ s) : t ∈ (w.rbReinsert s).sockets ↔ t ∈ w.sockets :=
  (mem_rbInsert_of_ne hts).trans (mem_erase_of_ne hts)

private theorem World.rbInsert_of_keyFree (hs : s ∉ w.sockets) (hk : w.KeyFree s (w.sock s).key) :
    s ∈ (w.rbInsert s).sockets ∧ (w.rbInsert s).rbFault = w.rbFault := by
  have hfind : find ukVsockSockaddrCmp w.keyOf (w.keyOf s) w.sockets = none := by
    rw [find_eq_none]
    intro t ht heq
    rw [sockaddrCmp_eq_iff rfl rfl] at heq
    exact hk t ht (fun hts => hs (hts ▸ ht)) heq.symm
  unfold rbInsert
  rw [insert_of_none hfind]
  exact ⟨(place_perm s w.sockets).mem_iff.2 mem_cons_self, Bool.or_false _⟩

private theorem World.KeyFree.modify (hk : w.KeyFree s (f (w.sock s)).key) :
    (w.modify s f).KeyFree s ((w.modify s f).sock s).key := by
  intro t ht hts
  rw [modify_of_ne _ _ hts, modify_self]
  exact hk t ht hts

private theorem keyFree_of_bindOther (hb : vsockBindOther w s port = none) (a : BitVec 32) :
    w.KeyFree s ((w.sock s).bound ⟨a, port⟩).key := by
  intro t ht _ heq
  refine find_eq_none.1 hb t ht ?_
  simp only [keyOf, heq]
  rw [sockaddrCmp_eq]
  simp [key, bound]

/-- A socket that is bound to a free port is in the table. -/
theorem World.mem_bindSock (hs : s ∉ w.sockets) (hb : vsockBindOther w s port = none) :
    s ∈ (w.bindSock s port).sockets := by
  have hk := World.KeyFree.modify (f := (·.bound ⟨w.cid, port⟩)) (keyFree_of_bindOther hb w.cid)
  exact (rbInsert_of_keyFree (w := w.modify s _) hs hk).1

private theorem World.settle_sockets_subset (w : World) (s : SockId) (v : VirtioVsock) :
    (w.settle s v).sockets ⊆ w.sockets := by
  unfold settle
  split
  · exact erase_subset
  · exact List.Subset.refl _

section
variable {w' : World} {op : Op}

namespace TableSound

variable (h : TableSound w) {v : VirtioVsock}
include h

theorem not_mem (hs : (w.sock s).state.inTable = false) : s ∉ w.sockets := by
  intro hm
  rw [h.inTable s hm] at hs
  cases hs

private theorem calm (hc : w.Calm w') : TableSound w' where
  fresh := by
    intro t ht
    rw [hc.next_eq]
    exact h.fresh t (by rwa [hc.live_eq] at ht)
  nodup := by rw [hc.sockets_eq]; exact h.nodup
  live := by rw [hc.live_eq, hc.sockets_eq]; exact h.live
  inTable := by rw [hc.sockets_eq, hc.sock_eq]; exact h.inTable
  cid_eq := by rw [hc.live_eq, hc.sock_eq, hc.cid_eq]; exact h.cid_eq
  key_inj := by rw [hc.sockets_eq, hc.sock_eq]; exact h.key_inj

private theorem remove (s : SockId) : TableSound (w.rbRemove s) where
  fresh := h.fresh
  nodup := h.nodup.erase s
  live t ht := h.live t (mem_of_mem_erase ht)
  inTable t ht := h.inTable t (mem_of_mem_erase ht)
  cid_eq := h.cid_eq
  key_inj t ht u hu := h.key_inj t (mem_of_mem_erase ht) u (mem_of_mem_erase hu)

private theorem not_mem_remove (s : SockId) : s ∉ (w.rbRemove s).sockets := by
  simp [rbRemove, h.nodup.mem_erase_iff]

private theorem modify (hs : s ∉ w.sockets)
    (hf : (f (w.sock s)).state.inTable = true → (f (w.sock s)).localAddr.cid = w.cid) :
    TableSound (w.modify s f) := by
  have hsock {t : SockId} (ht : t ∈ w.sockets) : (w.modify s f).sock t = w.sock t :=
    modify_of_ne _ _ fun hts => hs (hts ▸ ht)
  refine ⟨h.fresh, h.nodup, h.live, ?_, ?_, ?_⟩
  · intro t ht
    rw [hsock ht]
    exact h.inTable t ht
  · intro t ht
    by_cases hts : t = s
    · rw [hts, modify_self]
      exact hf
    · rw [modify_of_ne _ _ hts]
      exact h.cid_eq t ht
  · intro t ht u hu
    rw [hsock ht, hsock hu]
    exact h.key_inj t ht u hu

private theorem keep (hk : (f (w.sock s)).key = (w.sock s).key)
    (hs : (f (w.sock s)).state.inTable = true) (hv : (w.sock s).state.inTable = true) :
    TableSound (w.modify s f) := by
  have hkey (t : SockId) : ((w.modify s f).sock t).key = (w.sock t).key := w.modify_key t hk
  refine ⟨h.fresh, h.nodup, h.live, ?_, ?_, ?_⟩
  · intro t ht
    by_cases hts : t = s
    · rw [hts, modify_self, hs]
    · rw [modify_of_ne _ _ hts]
      exact h.inTable t ht
  · intro t ht
    have hl : ((w.modify s f).sock t).localAddr = (w.sock t).localAddr := congrArg UkVsockConnId.localAddr (hkey t)
    rw [hl]
    by_cases hts : t = s
    · subst hts
      exact fun _ => h.cid_eq t ht hv
    · rw [modify_of_ne _ _ hts]
      exact h.cid_eq t ht
  · intro t ht u hu heq
    rw [hkey, hkey] at heq
    exact h.key_inj t ht u hu heq

private theorem insert (hs : s ∉ w.sockets) (hl : w.live s = true) (ht : (w.sock s).state.inTable = true) :
    TableSound (w.rbInsert s) := by
  rcases insert_fst ukVsockSockaddrCmp w.keyOf s w.sockets with ⟨hf, hp⟩ | he
  swap
  · have hw : (w.rbInsert s).sockets = w.sockets := he
    exact ⟨h.fresh, by rw [hw]; exact h.nodup, by rw [hw]; exact h.live, by rw [hw]; exact h.inTable,
      h.cid_eq, by rw [hw]; exact h.key_inj⟩
  have hkey {t : SockId} (ht : t ∈ w.sockets) : (w.sock s).key ≠ (w.sock t).key := by
    intro heq
    exact find_eq_none.1 hf t ht ((sockaddrCmp_eq_iff rfl rfl).2 heq)
  refine ⟨h.fresh, hp.nodup_iff.2 (nodup_cons.2 ⟨hs, h.nodup⟩), ?_, ?_, h.cid_eq, ?_⟩
  · intro t hm
    rcases mem_rbInsert hm with rfl | hm
    · exact hl
    · exact h.live t hm
  · intro t hm
    rcases mem_rbInsert hm with rfl | hm
    · exact ht
    · exact h.inTable t hm
  · intro t hm u hu heq
    rcases mem_rbInsert hm with rfl | ht' <;> rcases mem_rbInsert hu with rfl | hu'
    · rfl
    · exact absurd heq (hkey hu')
    · exact absurd heq.symm (hkey ht')
    · exact h.key_inj t ht' u hu' heq

private theorem settle (hk : v.key = (w.sock s).key)
    (hv : v.state.inTable = true → (w.sock s).state.inTable = true) : TableSound (w.settle s v) := by
  cases hv' : v.state.inTable with
  | true =>
    rw [settle_of_keep fun _ => hv']
    exact h.keep hk hv' (hv hv')
  | false =>
    have hf : v.state.inTable = true → v.localAddr.cid = w.cid := by simp [hv']
    cases hs : (w.sock s).state.inTable with
    | false =>
      rw [settle_of_keep (by simp [hs])]
      exact h.modify (h.not_mem hs) hf
    | true =>
      rw [settle_of_leave hs hv']
      exact (h.remove s).modify (h.not_mem_remove s) hf

private theorem newSock (hv : v.state.inTable = true → v.localAddr.cid = w.cid) :
    TableSound (w.newSock v) ∧ w.next ∉ (w.newSock v).sockets := by
  have hne {t : SockId} (ht : w.live t = true) : t ≠ w.next := Nat.ne_of_lt (h.fresh t ht)
  have hsock {t : SockId} (ht : t ∈ w.sockets) : (w.newSock v).sock t = w.sock t :=
    newSock_of_ne w v (hne (h.live t ht))
  refine ⟨⟨?_, h.nodup, ?_, ?_, ?_, ?_⟩, fun hm => hne (h.live _ hm) rfl⟩
  · intro t ht
    by_cases htn : t = w.next
    · exact htn ▸ Nat.lt_succ_self _
    · exact Nat.lt_succ_of_lt (h.fresh t (by simpa [World.newSock, htn] using ht))
  · intro t ht
    simpa [World.newSock, hne (h.live t ht)] using h.live t ht
  · intro t ht
    rw [hsock ht]
    exact h.inTable t ht
  · intro t ht
    by_cases htn : t = w.next
    · rw [htn, newSock_next]
      exact hv
    · rw [newSock_of_ne w v htn]
      exact h.cid_eq t (by simpa [World.newSock, htn] using ht)
  · intro t ht u hu
    rw [hsock ht, hsock hu]
    exact h.key_inj t ht u hu

private theorem free (hs : s ∉ w.sockets) : TableSound (w.free s) := by
  have hlive {t : SockId} (ht : (w.free s).live t = true) : w.live t = true := (w.trails_free s).live t ht
  refine ⟨fun t ht => h.fresh t (hlive ht), h.nodup, ?_, h.inTable, fun t ht => h.cid_eq t (hlive ht), h.key_inj⟩
  · intro t ht
    have hts : t ≠ s := fun hts => hs (hts ▸ ht)
    simpa [World.free, hts] using h.live t ht

end TableSound

private theorem Settles.cid_eq (h : Settles w op w') : w'.cid = w.cid := by
  obtain ⟨w1, hc, -, rfl | ⟨s, v, -, rfl⟩⟩ := h
  · exact hc.cid_eq
  · rw [w1.settle_cid, hc.cid_eq]

theorem step_cid (hw : w.Fresh) (op : Op) : (step w op).cid = w.cid := by
  have hends := (step_ends hw op).1
  generalize step w op = w' at hends ⊢
  cases hends with
  | settles _ _ h | acceptFailed _ _ h => exact h.cid_eq
  | freed h => exact h.cid_eq
  | reset =>
    refine termLoop_induction (P := fun w' => w'.cid = w.cid) ?_ ?_ w _ rfl
    · intro w1 w2 h hq
      exact hq.calm.cid_eq.trans h
    · intro w1 s _ h _ _
      exact (w1.settle_cid s _).trans h
  | quiet hq | made _ hq | bound hq | boundListening hq | portless hq => exact hq.calm.cid_eq
  | listening => rfl
  | connected h =>
    cases h with
    | bound w1 hq | boundUndone w1 hq | ready w1 _ hq | readyUndone w1 _ hq => exact hq.calm.cid_eq
  | accepted => rfl

section
variable (h : TableSound w)
include h

private theorem TableSound.settles (ho : op.inserts = false) (hs : Settles w op w') : TableSound w' := by
  obtain ⟨w1, hc, -, rfl | ⟨s, v, hch, rfl⟩⟩ := hs
  · exact h.calm hc
  · have hk := hch.key_eq ho
    rw [← hc.sock_eq] at hk
    exact (h.calm hc).settle hk.1 hk.2

private theorem TableSound.insertReady (hl : w.live s = true) (hs : (w.sock s).state = .READY)
    (hf : (f (w.sock s)).state.inTable = true)
    (hc : (f (w.sock s)).localAddr.cid = w.cid) : TableSound ((w.modify s f).rbInsert s) := by
  have hn : s ∉ w.sockets := h.not_mem (by rw [hs]; rfl)
  exact (h.modify hn fun _ => hc).insert hn hl (by rw [modify_self]; exact hf)

private theorem TableSound.reinsert (hl : w.live s = true) (hf : (f (w.sock s)).state.inTable = true)
    (hc : (f (w.sock s)).localAddr.cid = w.cid) :
    TableSound ((w.modify s f).rbReinsert s) := by
  have hn := h.not_mem_remove s
  have hself : ((w.rbRemove s).modify s f).sock s = f (w.sock s) := modify_self ..
  exact ((h.remove s).modify hn fun _ => hc).insert hn hl (by rw [hself]; exact hf)

private theorem TableSound.connectEnd (hl : w.live s = true) {a : UkVsockaddr} (he : ConnectEnd w s a w') :
    TableSound w' := by
  cases he with
  | bound w1 hq hs =>
    have hcid := h.cid_eq s hl (by rw [hs]; rfl)
    have h1 := h.calm hq.calm
    obtain ⟨_, _, _, rfl, -⟩ := hq
    exact h1.reinsert hl rfl hcid
  | boundUndone w1 hq hs =>
    have hcid := h.cid_eq s hl (by rw [hs]; rfl)
    have h1 := h.calm hq.calm
    obtain ⟨_, _, _, rfl, -⟩ := hq
    refine (h1.reinsert hl rfl hcid).reinsert hl ?_ hcid
    rw [hs]; rfl
  | ready w1 port hq hs hp =>
    have h1 := h.calm hq.calm
    obtain ⟨_, _, _, rfl, -⟩ := hq
    exact h1.insertReady hl hs rfl rfl
  | readyUndone w1 port hq hs hp =>
    have h1 := h.calm hq.calm
    obtain ⟨_, _, _, rfl, -⟩ := hq
    have h2 := h1.insertReady (f := fun v => v.connecting ⟨w.cid, port⟩ a) hl hs rfl rfl
    refine (h2.remove s).modify (h2.not_mem_remove s) ?_
    simp [hs, UkVsockState.inTable]

private theorem TableSound.accept (hs : (w.sock s).state = .LISTENING) (entry : AcceptEntry)
    (queue : List AcceptEntry) (n : Nat) : TableSound (w.accepting s entry queue n) := by
  have h1 := (h.calm (w.calm_responded (accepted w.cid (w.sock s) entry) entry.req n)).keep
    (s := s) (f := (·.poppedClear queue)) (by simp [poppedClear_eq, key, responded])
    (by simp [VirtioVsock.poppedClear_eq, World.responded, hs, UkVsockState.inTable])
    (by simp [World.responded, hs, UkVsockState.inTable])
  have h2 := h1.newSock (v := acceptedOpen w.cid (w.sock s) entry) fun _ => rfl
  refine h2.1.insert h2.2 (by simp [World.newSock, World.responded]) ?_
  exact congrArg (·.state.inTable) (newSock_next _ _)

end

private theorem keyFree_accept (entry : AcceptEntry) (queue : List AcceptEntry) (n : Nat)
    (hk : w.KeyFree w.next (accepted w.cid (w.sock s) entry).key) :
    let w1 := ((w.responded (accepted w.cid (w.sock s) entry) entry.req n).modify s
      (·.poppedClear queue)).newSock (acceptedOpen w.cid (w.sock s) entry)
    w1.KeyFree w.next (w1.sock w.next).key := by
  intro w1 t ht hts
  have hpop : ((w.sock s).poppedClear queue).key = (w.sock s).key := by
    simp [poppedClear_eq, key]
  have hkey := (w.responded (accepted w.cid (w.sock s) entry) entry.req n).modify_key
    (f := (·.poppedClear queue)) t hpop
  have hnew : w1.sock w.next = acceptedOpen w.cid (w.sock s) entry := newSock_next _ _
  have hold : w1.sock t = _ := newSock_of_ne _ _ hts
  rw [hnew, hold, hkey]
  exact hk t ht hts

/-- An accepted socket is in the table, if its key is free. -/
theorem TableSound.mem_accepting (h : TableSound w) {entry : AcceptEntry} (queue : List AcceptEntry) (n : Nat)
    (hk : w.KeyFree w.next (accepted w.cid (w.sock s) entry).key) :
    w.next ∈ (w.accepting s entry queue n).sockets := by
  refine (rbInsert_of_keyFree (fun hm => ?_) (keyFree_accept entry queue n hk)).1
  exact Nat.lt_irrefl _ (h.fresh _ (h.live _ hm))

private theorem TableSound.term (h : TableSound w) : TableSound (exec w .term) := by
  refine termLoop_induction (fun _ _ h1 hq => h1.calm hq.calm) ?_ w _ h
  intro w1 t _ h1 hs _
  exact h1.settle (by simp [closed_eq, key]) fun _ => hs

/-- Every step keeps the table in order. -/
theorem TableSound.step (h : TableSound w) (op : Op) : TableSound (step w op) := by
  obtain ⟨hends, hstep | hl⟩ := step_ends h.fresh op
  · rwa [hstep]
  generalize Vsock.step w op = w' at hends ⊢
  cases hends with
  | quiet hq => exact h.calm hq.calm
  | settles ho _ hs => exact h.settles ho hs
  | freed hs ht =>
    have h1 := h.settles rfl hs
    exact h1.free (h1.not_mem ht)
  | reset => exact h.term
  | made ty hq => exact ((h.calm hq.calm).newSock (by simp [VirtioVsock.init, UkVsockState.inTable])).1
  | @bound s _ _ _ _ hq hs =>
    have h1 := h.calm hq.calm
    obtain ⟨_, _, _, rfl, -⟩ := hq
    exact h1.insertReady (hl s rfl) hs rfl rfl
  | listening hs => exact h.keep rfl rfl (by rcases hs with hs | hs <;> rw [hs] <;> rfl)
  | @boundListening s _ _ port hq hs =>
    have h1 := h.calm hq.calm
    obtain ⟨_, _, _, rfl, -⟩ := hq
    refine (h1.insertReady (f := (·.bound ⟨w.cid, port⟩)) (hl s rfl) hs rfl rfl).keep rfl rfl ?_
    rw [rbInsert_sock, modify_self]; rfl
  | @portless s _ _ w1 hq hs =>
    have h1 := h.calm hq.calm
    have hs1 : (w1.sock s).state = .READY := by rw [hq.calm.sock_eq]; exact hs
    refine h1.modify (h1.not_mem (by rw [hs1]; rfl)) ?_
    simp [VirtioVsock.portless, hs1, UkVsockState.inTable]
  | @connected s _ _ _ he => exact h.connectEnd (hl s rfl) he
  | @acceptFailed s _ _ _ _ w1 hs hq hc =>
    have hv : (w1.sock s).state.inTable = true := by rw [hc.sock_eq, hs]; rfl
    exact (h.calm hc).keep rfl hv hv
  | accepted hs => exact h.accept hs _ _ _

private theorem connectEnd_mem_of_ne {a : UkVsockaddr} (he : ConnectEnd w s a w') (hts : t ≠ s) : t ∈ w'.sockets ↔
    t ∈ w.sockets := by
  cases he with
  | bound w1 hq =>
    rw [mem_rbReinsert_of_ne hts, modify_sockets, hq.calm.sockets_eq]
  | boundUndone w1 hq =>
    rw [mem_rbReinsert_of_ne hts, modify_sockets, mem_rbReinsert_of_ne hts, modify_sockets,
      hq.calm.sockets_eq]
  | ready w1 port hq =>
    rw [mem_rbInsert_of_ne hts, modify_sockets, hq.calm.sockets_eq]
  | readyUndone w1 port hq =>
    rw [modify_sockets, rbRemove, mem_erase_of_ne hts, mem_rbInsert_of_ne hts,
      modify_sockets, hq.calm.sockets_eq]

/-- Only a bind, a connect and an accept put a socket into the table. -/
theorem step_mem_sockets (h : TableSound w) (ht : t ∈ (step w op).sockets) :
    t ∈ w.sockets ∨ (op.inserts = true ∧ op.sock? = some t) ∨ (t = w.next ∧ w.next < (step w op).next) := by
  have hsettles {w' : World} (hs : Settles w op w') (ht : t ∈ w'.sockets) : t ∈ w.sockets := by
    obtain ⟨w1, hc, -, rfl | ⟨s, v, -, rfl⟩⟩ := hs
    · rwa [hc.sockets_eq] at ht
    · rw [← hc.sockets_eq]
      exact settle_sockets_subset _ _ _ ht
  have hends := (step_ends h.fresh op).1
  generalize step w op = w' at hends ht ⊢
  cases hends with
  | quiet hq =>
    rw [hq.calm.sockets_eq] at ht
    exact .inl ht
  | settles _ _ hs => exact .inl (hsettles hs ht)
  | freed hs => exact .inl (hsettles hs ht)
  | reset =>
    left
    refine termLoop_induction (P := fun w' => t ∈ w'.sockets → t ∈ w.sockets) ?_ ?_ w _ id ht
    · intro w1 w2 ih hq hm
      rw [hq.calm.sockets_eq] at hm
      exact ih hm
    · intro w1 s _ ih _ _ hm
      exact ih (settle_sockets_subset _ _ _ hm)
  | made ty hq =>
    left
    rw [← hq.calm.sockets_eq]
    exact ht
  | bound hq | boundListening hq =>
    rcases mem_rbInsert ht with rfl | hm
    · exact .inr (.inl ⟨rfl, rfl⟩)
    · rw [modify_sockets, hq.calm.sockets_eq] at hm
      exact .inl hm
  | listening => exact .inl ht
  | portless hq =>
    rw [modify_sockets, hq.calm.sockets_eq] at ht
    exact .inl ht
  | @connected s _ _ _ he =>
    by_cases hts : t = s
    · exact .inr (.inl ⟨rfl, by rw [hts]; rfl⟩)
    · exact .inl ((connectEnd_mem_of_ne he hts).1 ht)
  | acceptFailed _ _ hc =>
    rw [modify_sockets, hc.sockets_eq] at ht
    exact .inl ht
  | accepted =>
    rcases mem_rbInsert ht with rfl | hm
    · exact .inr (.inr ⟨rfl, Nat.lt_succ_self _⟩)
    · exact .inl hm

private theorem step_mem_of_inTable (h : TableSound w) (ht : t ∈ w.sockets) (hc : ∀ a n, op ≠ .connect t a n)
    (hs : ((step w op).sock t).state.inTable = true) : t ∈ (step w op).sockets := by
  have hsettles {op : Op} {w' : World} (hs : Settles w op w') (ht' : (w'.sock t).state.inTable = true) :
      t ∈ w'.sockets := by
    obtain ⟨w1, hc, -, rfl | ⟨s, v, -, rfl⟩⟩ := hs
    · rwa [hc.sockets_eq]
    · refine settle_mem (by rwa [hc.sockets_eq]) ?_
      rintro rfl -
      rwa [settle_sock_self] at ht'
  have hends := (step_ends h.fresh op).1
  generalize step w op = w' at hends hs ⊢
  cases hends with
  | quiet hq => rwa [hq.calm.sockets_eq]
  | settles _ _ he => exact hsettles he hs
  | @freed s w1 he =>
    show t ∈ w1.sockets
    exact hsettles he hs
  | reset =>
    refine termLoop_induction (P := fun w' => (w'.sock t).state.inTable = true → t ∈ w'.sockets) ?_ ?_ w _
      (fun _ => ht) hs
    · intro w1 w2 ih hq hs
      rw [hq.calm.sock_eq] at hs
      rw [hq.calm.sockets_eq]
      exact ih hs
    · intro w1 s _ ih hin _ hs
      by_cases hts : t = s
      · subst hts
        rw [settle_sock_self] at hs
        exact settle_mem (ih hin) fun _ _ => hs
      · rw [settle_of_ne _ _ hts] at hs
        exact settle_mem (ih hs) fun h => absurd h hts
  | made ty hq =>
    simpa [newSock, hq.calm.sockets_eq] using ht
  | bound hq | boundListening hq => exact mem_rbInsert_of_mem _ (by rwa [modify_sockets, hq.calm.sockets_eq])
  | listening => exact ht
  | portless hq => rwa [modify_sockets, hq.calm.sockets_eq]
  | connected he =>
    refine (connectEnd_mem_of_ne he ?_).2 ht
    rintro rfl
    exact hc _ _ rfl
  | acceptFailed _ _ hcalm => rwa [modify_sockets, hcalm.sockets_eq]
  | accepted => exact mem_rbInsert_of_mem _ ht

/-- The socket has the same addresses, and is bound and in the table if it was so before and is still bound. -/
structure Keeps (w w' : World) (s : SockId) : Prop where
  key_eq : (w'.sock s).key = (w.sock s).key
  inTable : (w'.sock s).state.inTable = true → (w.sock s).state.inTable = true
  mem : s ∈ w.sockets → (w'.sock s).state.inTable = true → s ∈ w'.sockets

theorem Keeps.refl (w : World) (s : SockId) : Keeps w w s := ⟨rfl, id, fun hm _ => hm⟩

def Op.addresses : Op → Option SockId
  | .bind s _ _ | .listen s _ | .connect s _ _ => some s
  | _ => none

/-- A call for another socket keeps the address and the place of a socket. -/
theorem step_keeps (h : TableSound w) (hl : w.live s = true) (ho : op.addresses ≠ some s) :
    Keeps w (step w op) s := by
  have hkey : ((step w op).sock s).key = (w.sock s).key ∧
      (((step w op).sock s).state.inTable = true → (w.sock s).state.inTable = true) := by
    rcases step_change h.fresh op s with he | hch | ⟨rfl, -, -⟩
    · rw [he]
      exact ⟨rfl, id⟩
    · generalize (step w op).sock s = v at hch ⊢
      cases hi : op.inserts with
      | false => exact hch.key_eq hi
      | true =>
        cases hch with
        | acceptFailed => exact ⟨rfl, id⟩
        | accept => simp [poppedClear_eq, key]
        | bind | listen | bindListen | connectPortless | connectUndone | connect => exact absurd rfl ho
        | rx | term | close | shutdown | shutdownClose | getsockopt | write | writeEmpty | sendto | sendtoEmpty | read
        | recvfrom => cases hi
    · exact absurd (h.fresh _ hl) (Nat.lt_irrefl _)
  refine ⟨hkey.1, hkey.2, fun hm => step_mem_of_inTable h hm ?_⟩
  rintro a n rfl
  exact ho rfl

/-- A closed socket is out of the table, unless the packet that ends its connection could not be sent. -/
theorem step_close_mem_iff (h : TableSound w) (hm : s ∈ w.sockets) :
    s ∈ (step w (.close s)).sockets ↔
    ¬ ((w.sock s).state = .OPEN ∨ (w.sock s).state = .WAIT_CONNECT → w.Transmits) := by
  have hin := h.inTable s hm
  rw [← close_ok_iff]
  simp only [step, Op.sock?, h.live s hm, if_true, exec, vsockClose, ukVsockDestroy]
  obtain ⟨w1, hq, ⟨e, -, -, he⟩ | ⟨hs, -⟩ | ⟨-, he⟩⟩ := close_cases w s false
  · simp only [he, hq.calm.sockets_eq, reduceCtorEq, not_false_eq_true, iff_true]
    exact hm
  · rw [hs] at hin
    cases hin
  · simp only [he, not_true_eq_false, iff_false]
    have hc : (w.sock s).closed.state.inTable = false := by simp [closed_eq, inTable]
    rw [settle_of_leave (by rw [hq.calm.sock_eq]; exact hin) hc]
    exact (h.calm hq.calm).not_mem_remove s

theorem tableSound_init (cid : BitVec 32) (env : Nat → Outcome) : TableSound (World.init cid env) := by
  refine ⟨fresh_init cid env, nodup_nil, ?_, ?_, ?_, ?_⟩ <;> intro t ht <;> simp [World.init] at ht

/-- The table is in order in every state of every run. -/
theorem tableSound_of_run (cid : BitVec 32) (env : Nat → Outcome) (ops : List Op) :
    TableSound (Runs.run step (World.init cid env) ops) :=
  Runs.run_invariant (fun _ op h => h.step op) (tableSound_init cid env) ops

end

structure TableOk (w : World) : Prop where
  mem_iff : ∀ t, w.live t = true → (t ∈ w.sockets ↔ (w.sock t).state.inTable = true)
  key_inj : ∀ t ∈ w.sockets, ∀ u ∈ w.sockets, (w.sock t).key = (w.sock u).key → t = u
  cid_eq : ∀ t ∈ w.sockets, (w.sock t).localAddr.cid = w.cid
  /-- Every insertion has inserted its element and every removal has removed one. -/
  fault : w.rbFault = false

structure TableFull (w : World) : Prop where
  mem : ∀ t, w.live t = true → (w.sock t).state.inTable = true → t ∈ w.sockets
  fault : w.rbFault = false

variable {w' : World}

section

private theorem TableFull.tableOk (h : TableFull w) (hs : TableSound w) : TableOk w where
  mem_iff t ht := ⟨hs.inTable t, h.mem t ht⟩
  key_inj := hs.key_inj
  cid_eq t ht := hs.cid_eq t (hs.live t ht) (hs.inTable t ht)
  fault := h.fault

namespace TableFull

private theorem calm (h : TableFull w) (hc : w.Calm w') : TableFull w' where
  mem := by rw [hc.live_eq, hc.sockets_eq, hc.sock_eq]; exact h.mem
  fault := hc.rbFault_eq.trans h.fault

private theorem modify (h : TableFull w)
    (hf : (f (w.sock s)).state.inTable = true → (w.sock s).state.inTable = true) :
    TableFull (w.modify s f) := by
  refine ⟨fun t ht hin => h.mem t ht ?_, h.fault⟩
  by_cases hts : t = s
  · subst hts
    rw [modify_self] at hin
    exact hf hin
  · rwa [modify_of_ne _ _ hts] at hin

private theorem remove (h : TableFull w) (hs : s ∈ w.sockets) (hf : (f (w.sock s)).state.inTable = false) :
    TableFull ((w.rbRemove s).modify s f) := by
  refine ⟨fun t ht hin => ?_, by simp [rbRemove, h.fault, hs]⟩
  by_cases hts : t = s
  · rw [hts, modify_self, rbRemove_sock, hf] at hin
    cases hin
  · rw [modify_of_ne _ _ hts] at hin
    exact (List.mem_erase_of_ne hts).2 (h.mem t ht hin)

variable {v : VirtioVsock}

private theorem settle (h : TableFull w) (hl : w.live s = true)
    (hv : v.state.inTable = true → (w.sock s).state.inTable = true) : TableFull (w.settle s v) := by
  unfold World.settle
  split
  · rename_i hb
    rw [Bool.and_eq_true, Bool.not_eq_true'] at hb
    exact h.remove (h.mem s hl hb.1) hb.2
  · exact h.modify hv

private theorem insert (hs : s ∉ w.sockets) (hk : w.KeyFree s (w.sock s).key) (hf : w.rbFault = false)
    (hm : ∀ t, t ≠ s → w.live t = true → (w.sock t).state.inTable = true → t ∈ w.sockets) :
    TableFull (w.rbInsert s) := by
  obtain ⟨hself, hfault⟩ := rbInsert_of_keyFree hs hk
  refine ⟨fun t ht hin => ?_, hfault.trans hf⟩
  by_cases hts : t = s
  · rw [hts]
    exact hself
  · exact mem_rbInsert_of_mem s (hm t hts ht hin)

private theorem insertNew (h : TableFull w) (hs : s ∉ w.sockets) (hk : w.KeyFree s (f (w.sock s)).key) :
    TableFull ((w.modify s f).rbInsert s) := by
  refine insert hs hk.modify h.fault fun t hts ht hin => ?_
  rw [modify_of_ne _ _ hts] at hin
  exact h.mem t ht hin

private theorem reinsert (h : TableFull w) (hn : w.sockets.Nodup) (hs : s ∈ w.sockets)
    (hk : w.KeyFree s (f (w.sock s)).key) :
    TableFull ((w.modify s f).rbReinsert s) := by
  refine insert ?_ (fun t ht => hk.modify t (List.mem_of_mem_erase ht)) ?_ fun t hts ht hin => ?_
  · simp [rbRemove, hn.mem_erase_iff]
  · simp [rbRemove, h.fault, hs]
  · rw [rbRemove_sock, modify_of_ne _ _ hts] at hin
    exact (List.mem_erase_of_ne hts).2 (h.mem t ht hin)

private theorem newSock (h : TableFull w) {t : SockId} (htn : t ≠ w.next) (ht : (w.newSock v).live t = true)
    (hin : ((w.newSock v).sock t).state.inTable = true) : t ∈ w.sockets := by
  rw [newSock_of_ne w v htn] at hin
  exact h.mem t (by simpa [World.newSock, htn] using ht) hin

end TableFull

end

/-- The step does not insert a key that another socket in the table has: `accept` does not take a request of a peer
that is already connected to the port, and `connect` on a bound socket does not name such a peer. -/
def TableSafe (w : World) : Op → Prop
  | .accept s _ _ => ∀ entry ∈ (w.sock s).acceptQueue.head?,
      w.KeyFree w.next ⟨(w.sock s).sockType, ⟨w.cid, (w.sock s).localAddr.port⟩, entry.peer, {}⟩
  | .connect s addr _ => (w.sock s).state = .BOUND → w.KeyFree s { (w.sock s).key with peer := addr.addr }
  | _ => True

section
variable {op : Op} {pkt : Packet}

private theorem TableFull.settles (h : TableFull w) (ho : op.inserts = false) (hs : Settles w op w')
    (hl : ∀ s v, Change w op s (w.sock s) v → w.live s = true) : TableFull w' := by
  obtain ⟨w1, hc, -, rfl | ⟨s, v, hch, rfl⟩⟩ := hs
  · exact h.calm hc
  · have hk := hch.key_eq ho
    rw [← hc.sock_eq] at hk
    exact (h.calm hc).settle (by rw [hc.live_eq]; exact hl s v hch) hk.2

private theorem keyFree_of_portFree {port : BitVec 32} (hp : w.PortFree (w.sock s).sockType port) (a : UkVsockaddr) :
    w.KeyFree s ((w.sock s).connecting ⟨w.cid, port⟩ a).key := by
  intro t ht _ heq
  refine hp t ht ?_ ?_
  · exact congrArg UkVsockConnId.type heq
  · exact congrArg (·.localAddr.port) heq

private theorem TableFull.connectEnd (h : TableFull w) (hw : TableSound w) (hl : w.live s = true) {a : UkVsockaddr}
    (hsafe : (w.sock s).state = .BOUND → w.KeyFree s { (w.sock s).key with peer := a })
    (he : ConnectEnd w s a w') : TableFull w' := by
  cases he with
  | bound w1 hq hs =>
    have h1 := h.calm hq.calm
    obtain ⟨_, _, _, rfl, -⟩ := hq
    exact h1.reinsert hw.nodup (h.mem s hl (by rw [hs]; rfl)) (hsafe hs)
  | boundUndone w1 hq hs =>
    have hm := h.mem s hl (by rw [hs]; rfl)
    have h1 := h.calm hq.calm
    have hw1 := hw.calm hq.calm
    obtain ⟨_, _, _, rfl, -⟩ := hq
    -- The request could not be sent: the socket is reinserted twice, the second time under its old key.
    have h2 := h1.reinsert hw.nodup hm (f := fun v => v.connecting v.localAddr a) (hsafe hs)
    have hw2 := hw1.reinsert hl (f := fun v => v.connecting v.localAddr a) rfl (hw.cid_eq s hl (by rw [hs]; rfl))
    refine h2.reinsert hw2.nodup (h2.mem s hl (by rw [rbReinsert_sock, modify_self]; rfl)) ?_
    -- The other sockets are those that were in the table before, and had other keys than `s` then.
    intro t ht hts heq
    rw [mem_rbReinsert_of_ne hts] at ht
    rw [rbReinsert_sock, modify_of_ne _ _ hts] at heq
    exact hts (hw.key_inj t ht s hm heq)
  | ready w1 port hq hs hp =>
    have h1 := h.calm hq.calm
    obtain ⟨_, _, _, rfl, -⟩ := hq
    exact h1.insertNew (hw.not_mem (by rw [hs]; rfl)) (keyFree_of_portFree hp a)
  | readyUndone w1 port hq hs hp =>
    have h1 := h.calm hq.calm
    obtain ⟨_, _, _, rfl, -⟩ := hq
    have h2 := h1.insertNew (f := fun v => v.connecting ⟨w.cid, port⟩ a) (hw.not_mem (by rw [hs]; rfl))
      (keyFree_of_portFree hp a)
    exact h2.remove (h2.mem s hl (by rw [rbInsert_sock, modify_self]; rfl)) (by simp [hs, UkVsockState.inTable])

private theorem TableFull.accept (h : TableFull w) (hw : TableSound w) {entry : AcceptEntry}
    {queue : List AcceptEntry} {n : Nat} (hk : w.KeyFree w.next (VirtioVsock.accepted w.cid (w.sock s) entry).key) :
    TableFull (w.accepting s entry queue n) := by
  have h1 := (h.calm (w.calm_responded (VirtioVsock.accepted w.cid (w.sock s) entry) entry.req n)).modify
    (s := s) (f := (·.poppedClear queue)) (by simp [VirtioVsock.poppedClear_eq])
  refine TableFull.insert (fun hm => ?_) (keyFree_accept entry queue n hk) h.fault
    fun t htn ht hin => h1.newSock htn ht hin
  exact Nat.lt_irrefl _ (hw.fresh _ (hw.live _ hm))

private theorem TableFull.term (h : TableFull w) (hw : TableSound w) : TableFull (exec w .term) := by
  have : TableFull (exec w .term) ∧ (exec w .term).live = w.live := by
    refine termLoop_induction (P := fun w' => TableFull w' ∧ w'.live = w.live) ?_ ?_ w _ ⟨h, rfl⟩
    · intro w1 w2 h1 hq
      exact ⟨h1.1.calm hq.calm, hq.calm.live_eq.trans h1.2⟩
    · intro w1 t ht h1 hs _
      have hl : w1.live t = true := by rw [h1.2]; exact hw.live t ht
      exact ⟨h1.1.settle hl fun _ => hs, (w1.settle_live t _).trans h1.2⟩
  exact this.1

/-- A packet is for a socket of the table. -/
theorem rxTarget_mem (h : rxTarget w pkt = some s) : s ∈ w.sockets := by
  unfold rxTarget at h
  split at h
  · cases h
  split at h
  · cases h
  split at h
  · cases h
  unfold ukVsockLookup at h
  split at h
  · rename_i hf
    cases h
    exact (OrdSet.find_eq_some hf).1
  · exact (OrdSet.find_eq_some h).1

/-- The socket is the one of the connection the packet belongs to. -/
def VirtioVsock.Matches (v : VirtioVsock) (hdr : VirtioVsockHdr) : Prop :=
  v.sockType.virtio = hdr.type ∧
  (v.localAddr.cid.setWidth 64 = hdr.dstCid ∧ v.localAddr.port = hdr.dstPort) ∧
  (v.peerAddr.cid.setWidth 64 = hdr.srcCid ∧ v.peerAddr.port = hdr.srcPort)

/-- A packet is for the socket that matches its addresses, if no other has the same key. -/
theorem rxTarget_of_matches (hm : s ∈ w.sockets) (hk : w.KeyFree s (w.sock s).key)
    (hc : (w.sock s).localAddr.cid = w.cid) (h : (w.sock s).Matches pkt.hdr)
    (hl : pkt.hdr.len.toNat ≤ pkt.payload.length) : rxTarget w pkt = some s := by
  obtain ⟨hty, ⟨hlc, hlp⟩, hpc, hpp⟩ := h
  have htype : SockType.ofVirtio pkt.hdr.type = some (w.sock s).sockType := by
    rw [← hty]
    cases (w.sock s).sockType <;> rfl
  have hfind : w.rbFind ⟨(w.sock s).sockType, (w.sock s).localAddr, (w.sock s).peerAddr, {}⟩ = some s := by
    refine OrdSet.find_of_unique hm ((sockaddrCmp_eq_iff rfl rfl).2 rfl) ?_
    intro t ht heq
    rw [sockaddrCmp_eq_iff rfl rfl] at heq
    by_contra hts
    exact hk t ht hts heq.symm
  have hcid (x : BitVec 32) : (x.setWidth 64).setWidth 32 = x := by simp
  unfold rxTarget
  rw [if_neg (Nat.not_lt.2 hl), if_neg (by rw [← hlc, hc]; simp), htype]
  simp only [← hlc, ← hlp, ← hpc, ← hpp, hcid, ukVsockLookup, hfind]

private theorem Change.live {v v' : VirtioVsock} (hch : Change w op s v v') (h : TableSound w) (ht : op ≠ .term)
    (hl : ∀ s, op.sock? = some s → w.live s = true) : w.live s = true := by
  cases hch with
  | rx hr => exact h.live s (rxTarget_mem hr)
  | term => exact absurd rfl ht
  | close | shutdown | shutdownClose | getsockopt | write | writeEmpty | sendto | sendtoEmpty | read | recvfrom | bind
  | listen | bindListen | connectPortless | connectUndone | connect | acceptFailed | accept => exact hl _ rfl

/-- A step without a lost insertion keeps every bound socket in the table. -/
theorem TableFull.step (h : TableFull w) (hw : TableSound w) (hop : TableSafe w op) : TableFull (step w op) := by
  obtain ⟨hends, hstep | hl⟩ := step_ends hw.fresh op
  · rwa [hstep]
  generalize Vsock.step w op = w' at hends ⊢
  cases hends with
  | quiet hq => exact h.calm hq.calm
  | settles ho ht hs => exact h.settles ho hs fun t v hch => hch.live hw ht hl
  | @freed s w1 hs ht =>
    have h1 := h.settles rfl hs fun t v hch => hch.live hw nofun hl
    exact ⟨fun t ht => h1.mem t ((w1.trails_free s).live t ht), h1.fault⟩
  | reset => exact h.term hw
  | @made _ _ w1 ty hq =>
    have h1 := h.calm hq.calm
    refine ⟨fun t ht hin => ?_, h1.fault⟩
    by_cases htn : t = w1.next
    · rw [htn, newSock_next] at hin
      cases hin
    · exact h1.newSock htn ht hin
  | bound hq hs hb =>
    have h1 := h.calm hq.calm
    obtain ⟨_, _, _, rfl, -⟩ := hq
    exact h1.insertNew (hw.not_mem (by rw [hs]; rfl)) (keyFree_of_bindOther hb w.cid)
  | listening hs => exact h.modify fun _ => by rcases hs with hs | hs <;> rw [hs] <;> rfl
  | @boundListening s _ _ port hq hs hb =>
    have h1 := h.calm hq.calm
    obtain ⟨_, _, _, rfl, -⟩ := hq
    have h2 :=
      h1.insertNew (f := (·.bound ⟨w.cid, port⟩)) (hw.not_mem (by rw [hs]; rfl)) (keyFree_of_bindOther hb w.cid)
    refine h2.modify fun _ => ?_
    rw [rbInsert_sock, modify_self]; rfl
  | portless hq => exact (h.calm hq.calm).modify id
  | @connected s _ _ _ he => exact h.connectEnd hw (hl s rfl) hop he
  | acceptFailed _ _ hc => exact (h.calm hc).modify id
  | accepted _ hq => exact h.accept hw (hop _ (by rw [hq]; rfl))

end

/-- In a run that inserts no key twice, the table is in order in every state. -/
theorem tableOk_of_run (cid : BitVec 32) (env : Nat → Outcome) (ops : List Op)
    (h : Runs.Meets step TableSafe (World.init cid env) ops) : TableOk (Runs.run step (World.init cid env) ops) := by
  have hinv :=
    h.invariant (I := fun w => TableSound w ∧ TableFull w) (fun w op hi hop => ⟨hi.1.step op, hi.2.step hi.1 hop⟩)
    ⟨tableSound_init cid env, ⟨nofun, rfl⟩⟩
  exact hinv.2.tableOk hinv.1

def peerPacket (op : BitVec 16) (bufAlloc fwdCnt : BitVec 32) (payload : List UInt8) : Packet where
  hdr :=
    { srcCid := 2, dstCid := 3, srcPort := 5, dstPort := 1000, len := BitVec.ofNat 32 payload.length, type := 1,
      op := op, flags := 0, bufAlloc := bufAlloc, fwdCnt := fwdCnt }
  payload := payload

def peerShutdown (flags : BitVec 32) : Packet :=
  { peerPacket OP_SHUTDOWN 100 0 [] with hdr := { (peerPacket OP_SHUTDOWN 100 0 []).hdr with flags := flags } }

def dial : List Op := [.bind 0 ⟨AF_VSOCK, 1000, CID_ANY⟩ 16, .connect 0 ⟨AF_VSOCK, 5, 2⟩ 16]

def serve : List Op := [.socket 1 0, .bind 0 ⟨AF_VSOCK, 1000, CID_ANY⟩ 16, .listen 0 4]

def serveOne : List Op := serve ++ [.rx (peerPacket OP_REQUEST 100 0 []), .accept 0 false none]

def served : World := Runs.run step (World.init 3 fun _ => .good) serveOne

theorem tableOk_serveOne : Runs.Meets step TableSafe (World.init 3 fun _ => .good) serveOne ∧
      TableOk (Runs.run step (World.init 3 fun _ => .good) serveOne) := by
  have h : Runs.Meets step TableSafe (World.init 3 fun _ => .good) serveOne := by
    refine ⟨trivial, trivial, trivial, trivial, ?_, trivial⟩
    intro entry he
    obtain rfl : entry = ⟨⟨2, 5⟩, 100, 0, 0⟩ := by
      have : entry ∈ some (⟨⟨2, 5⟩, 100, 0, 0⟩ : AcceptEntry) := he
      exact (Option.mem_some_iff.1 this).symm
    unfold World.KeyFree
    decide
  exact ⟨h, tableOk_of_run _ _ _ h⟩

/-- Two requests of one peer are both accepted, and the second connection is open but not in the table. -/
theorem not_tableOk_of_run :
    ¬ ∀ (cid : BitVec 32) (env : Nat → Outcome)
    (ops : List Op), TableOk (Runs.run step (World.init cid env) ops) := by
  intro h
  have hmem := (h 3 (fun _ => .good) (serve ++ [.rx (peerPacket OP_REQUEST 100 0 []),
    .rx (peerPacket OP_REQUEST 100 0 []), .accept 0 false none, .accept 0 false none])).mem_iff 2 (by decide)
  revert hmem
  decide

end Unikraft.Vsock
