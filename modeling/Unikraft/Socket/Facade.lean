import Unikraft.Socket.Held

/-!
# Releasing files, and the address family of a facade

`socket_release` looks neither at the result nor at `stub_node`. A vsock whose peer could not be told stays in the
table and keeps signalling a freed file; the AF_INET socket of a facade is never closed, and the file goes to the
allocator of the vsock driver. A program that has made a socket of AF_INET is to see AF_INET addresses only, but
`getpeername`, `accept` and `connect` hand the address on as it is.
-/

namespace Unikraft.Socket

open Vsock (World SockId TableSound)
open Layer List SocketAlloc

section
variable {drv : Drivers} {L : Layer} {op : Op}

structure Layer.Sound (L : Layer) : Prop where
  held : L.Held
  table : TableSound L.vs

/-- Every call keeps the vsock layer below sound. -/
theorem Layer.Sound.step (h : L.Sound) (drv : Drivers) (op : Op) : (step drv L op).Sound := by
  refine ⟨h.held.step drv op, ?_⟩
  rw [step_vs drv h.held op]
  cases stepVsock drv L op with
  | none => exact h.table
  | some vop => exact h.table.step vop

theorem sound_init (cid : BitVec 32) (env : Nat → Vsock.Outcome) : (Layer.init cid env).Sound :=
  ⟨held_init cid env, Vsock.tableSound_init cid env⟩

def Layer.NoStale (L : Layer) : Prop := ∀ s ∈ L.vs.sockets, ∀ f, L.posixSock s = some f → L.live f = true

/-- If the file holds a connection that is in the table, the packet that ends it can be sent. -/
def ReleaseSafe (L : Layer) : Op → Prop
  | .release f => L.live f = true → ∀ s ∈ L.vs.sockets, (L.file f).node = ⟨s, .vsock⟩ →
      ((L.vs.sock s).state = .OPEN ∨ (L.vs.sock s).state = .WAIT_CONNECT → L.vs.Transmits)
  | _ => True

private theorem step_mem_vs (drv : Drivers) (h : L.Sound) (op : Op) {t : SockId}
    (ht : t ∈ (vsStep L.vs (stepVsock drv L op)).sockets) :
    t ∈ L.vs.sockets ∨ (∃ f, L.live f = true ∧ (L.file f).node = ⟨t, .vsock⟩) ∨
      (t = L.vs.next ∧ L.vs.next < (vsStep L.vs (stepVsock drv L op)).next) := by
  cases hv : stepVsock drv L op with
  | none =>
    rw [hv] at ht
    exact .inl ht
  | some vop =>
    rw [hv] at ht
    rcases Vsock.step_mem_sockets h.table ht with hm | ⟨-, hs⟩ | hn
    · exact .inl hm
    · obtain ⟨f, -, hl, hn⟩ := stepVsock_sock hv hs
      exact .inr (.inl ⟨f, hl, hn⟩)
    · exact .inr (.inr hn)

variable {f : FileId} {w' : World} {al : SocketAlloc}

private theorem live_of_posixSock (h : L.Held) {s : SockId} {g : FileId} (hg : L.live g = true)
    (hn : (L.file g).node = ⟨s, .vsock⟩) (hf : L.posixSock s = some f) : L.live f = true := by
  have hp := (h.vsock g s hg hn).2
  rw [hf] at hp
  cases hp
  exact hg

private theorem noStale_opened (h : L.Sound) (hs : L.NoStale) (n : Nat)
    (hm : ∀ t ∈ w'.sockets, t ∈ L.vs.sockets ∨ (∃ f, L.live f = true ∧ (L.file f).node = ⟨t, .vsock⟩) ∨
      (t = L.vs.next ∧ L.vs.next < w'.next))
    (hal : al.node.driver = .vsock → al.node.sockData = L.vs.next)
    (ho : L.vs.next < w'.next → al.node.driver = .vsock) :
    (L.opened w' n al).NoStale := by
  have hkeep {f : FileId} (hf : L.live f = true) : (L.opened w' n al).live f = true := by
    have hne : f ≠ L.next := Nat.ne_of_lt (h.held.file_lt f hf)
    simpa [opened, hne] using hf
  intro t ht f hp
  by_cases hnew : al.node.driver = .vsock ∧ t = al.node.sockData
  · simp only [opened, if_pos hnew.1, hnew.2, Function.update_self] at hp
    cases hp
    simp [opened]
  -- Otherwise the socket signals the file that it signalled before.
  have hp' : L.posixSock t = some f := by
    simp only [opened] at hp
    split at hp
    · rename_i hd
      rwa [Function.update_of_ne fun hts => hnew ⟨hd, hts⟩] at hp
    · exact hp
  rcases hm t ht with hold | ⟨g, hg, hn⟩ | ⟨rfl, hlt⟩
  · exact hkeep (hs t hold f hp')
  · exact hkeep (live_of_posixSock h.held hg hn hp')
  · exact absurd ⟨ho hlt, (hal (ho hlt)).symm⟩ hnew

private theorem noStale_of_not_release (h : L.Sound) (hs : L.NoStale) (hr : ∀ f, op = .release f → L.live f = false) :
    (step drv L op).NoStale := by
  have hm := fun t (ht : t ∈ _) => step_mem_vs drv h op ht
  have hends := step_ends drv h.held op
  generalize vsStep L.vs (stepVsock drv L op) = w' at hends hm
  generalize step drv L op = L' at hends ⊢
  -- As long as no socket is made, the files and what signals them stay.
  have hsame (hw : SameSocks L.vs w') (t : SockId) (ht : t ∈ w'.sockets) (f : FileId) (hp : L.posixSock t = some f) :
      L.live f = true := by
    rcases hm t ht with hold | ⟨g, hg, hn⟩ | ⟨-, hlt⟩
    · exact hs t hold f hp
    · exact live_of_posixSock h.held hg hn hp
    · rw [hw.1] at hlt
      exact absurd hlt (Nat.lt_irrefl _)
  cases hends with
  | kept hw => exact hsame hw
  | refused a hw => exact hsame hw
  | openedVsock inet hi hw | openedFacade inet hi => exact noStale_opened h hs _ hm (fun _ => rfl) fun _ => rfl
  | openedOther family inet hi hw =>
    refine noStale_opened h hs _ hm nofun fun hlt => ?_
    rw [hw.1] at hlt
    exact absurd hlt (Nat.lt_irrefl _)
  | released hl =>
    rw [hr _ rfl] at hl
    cases hl

private theorem noStale_release (h : L.Sound) (hs : L.NoStale) (hl : L.live f = true) :
    (step drv L (.release f)).NoStale ↔ ReleaseSafe L (.release f) := by
  rw [step_release h.held hl]
  simp only [ReleaseSafe, hl, true_implies]
  cases hn : (L.file f).node with
  | mk s d =>
    cases d with
    | other family =>
      -- The vsock layer is not touched, and none of its sockets signals this file.
      refine ⟨fun _ _ _ hd => by simp at hd, fun _ t ht g hp => released_live.2 ⟨?_, ?_⟩⟩
      · rintro rfl
        have ha := (h.held.attached t g hp).2
        rw [hn] at ha
        cases ha
      · refine hs t ?_ g hp
        simpa [released, vsock, hn, vsStep] using ht
    | vsock =>
      have hvs : (L.released drv (vsStep L.vs ((L.file f).vsock .close)) f).vs = Vsock.step L.vs (.close s) := by
        simp only [released, vsock, hn, vsStep]
      have hps := (h.held.vsock f s hl hn).2
      constructor
      · intro hno t ht hts
        cases hts
        by_contra hc
        have hm := (Vsock.step_close_mem_iff h.table ht).2 hc
        rw [← hvs] at hm
        exact (released_live.1 (hno s hm f hps)).1 rfl
      · intro hsafe t ht g hp
        rw [hvs] at ht
        have hmem : t ∈ L.vs.sockets := by
          rcases Vsock.step_mem_sockets h.table ht with hm | ⟨hi, -⟩ | ⟨-, hlt⟩
          · exact hm
          · cases hi
          · rw [(Vsock.step_close_live h.held.fresh s).1] at hlt
            exact absurd hlt (Nat.lt_irrefl _)
        refine released_live.2 ⟨?_, hs t hmem g hp⟩
        rintro rfl
        have hts : t = s := by
          have ha := (h.held.attached t g hp).2
          rw [hn] at ha
          exact (congrArg PosixSocketNode.sockData ha).symm
        subst hts
        exact (Vsock.step_close_mem_iff h.table hmem).1 ht (hsafe t hmem rfl)

/-- No table entry outlives its file exactly in the runs in which every connection that is in the table when its file
is released can be ended. -/
theorem noStale_iff (drv : Drivers) (cid : BitVec 32) (env : Nat → Vsock.Outcome) (ops : List Op) :
    Runs.Always (step drv) NoStale (Layer.init cid env) ops ↔
      Runs.Meets (step drv) ReleaseSafe (Layer.init cid env) ops := by
  refine Runs.always_iff_meets (fun L op h => h.step drv op) ?_ (sound_init cid env) nofun
  intro L op h hs
  by_cases hr : ∃ f, op = .release f ∧ L.live f = true
  · obtain ⟨f, rfl, hl⟩ := hr
    exact noStale_release h hs hl
  · have hdead (f : FileId) (hf : op = .release f) : L.live f = false := by
      by_contra hl
      exact hr ⟨f, hf, by simpa using hl⟩
    refine ⟨fun _ => ?_, fun _ => noStale_of_not_release h hs hdead⟩
    cases op with
    | release f =>
      intro hl
      rw [hdead f rfl] at hl
      cases hl
    | socket | accept | bind | listen | connect | call | rx | reset => trivial

/-- The connection of a vsock file is to be closed, but there is no memory for the packet. -/
theorem not_noStale : ¬ (Runs.run (step ⟨fun _ => true, fun _ => 0⟩)
      (Layer.init 3 fun n => if n < 4 then .good else ⟨false, false, none⟩)
    [.socket 40 1 0 true (.ok ()), .connect 0 ⟨40, 0, 5, 2⟩ 16 (.ok ()), .release 0]).NoStale := by
  intro h
  have hl := h 0 (by decide) 0 rfl
  revert hl
  decide

/-- Every driver socket is closed once, when its file is released, and every file goes back to its allocator. -/
structure Layer.Conserved (L : Layer) : Prop where
  closed_once : ∀ n f, (n, f) ∈ L.returned → L.closed.count n = if L.live f then 0 else 1
  closed_returned : ∀ n ∈ L.closed, ∃ f, (n, f) ∈ L.returned
  freed : ∀ x ∈ L.frees, x.1 = x.2

structure Layer.Ledger (drv : Drivers) (L : Layer) : Prop where
  held : L.Held
  fresh : ∀ n f, (n, f) ∈ L.returned → f < L.next ∧ n.sockData < if n.driver = .vsock then L.vs.next else L.extNext
  holder : ∀ n f g, (n, f) ∈ L.returned → (n, g) ∈ L.returned → f = g
  nodes : ∀ f, L.live f = true → (L.file f).nodes.Nodup ∧ ∀ n, n ∈ (L.file f).nodes ↔ (n, f) ∈ L.returned
  closed : ∀ n ∈ L.closed, ∃ f, (n, f) ∈ L.returned ∧ L.live f = false
  allocator : ∀ f, L.live f = true → (L.file f).stubNode = none →
    (L.file f).allocator = drv.allocator (L.file f).node.driver

namespace Layer.Ledger

section
variable (h : L.Ledger drv)
include h

private theorem kept (hf : w'.Fresh) (hw : SameSocks L.vs w') : Ledger drv { L with vs := w' } where
  held := h.held.kept hf hw
  fresh n f hn := by
    have hfr := h.fresh n f hn
    rw [← hw.1] at hfr
    exact hfr
  holder := h.holder
  nodes := h.nodes
  closed := h.closed
  allocator := h.allocator

private theorem opened {n : Nat} (hheld : (L.opened w' n al).Held) (hw : L.vs.next ≤ w'.next) (hn : L.extNext ≤ n)
    (hnd : al.nodes.Nodup) (hal : ∀ m ∈ al.nodes, (if m.driver = .vsock then L.vs.next else L.extNext) ≤ m.sockData ∧
      m.sockData < if m.driver = .vsock then w'.next else n)
    (ha : al.stubNode = none → al.allocator = drv.allocator al.node.driver) : (L.opened w' n al).Ledger drv := by
  have hmem {m : PosixSocketNode} {f : FileId} :
      (m, f) ∈ (L.opened w' n al).returned ↔ (m ∈ al.nodes ∧ f = L.next) ∨ (m, f) ∈ L.returned := by
    simp [Layer.opened, eq_comm]
  have hnew {m : PosixSocketNode} {f : FileId} (hm : m ∈ al.nodes) : (m, f) ∉ L.returned := by
    intro hr
    exact absurd (Nat.lt_of_lt_of_le (h.fresh m f hr).2 (hal m hm).1) (Nat.lt_irrefl _)
  have hne {f : FileId} {m : PosixSocketNode} (hr : (m, f) ∈ L.returned) : f ≠ L.next :=
    Nat.ne_of_lt (h.fresh m f hr).1
  refine ⟨hheld, ?_, ?_, ?_, ?_, ?_⟩
  · intro m f hr
    rcases hmem.1 hr with ⟨hm, rfl⟩ | hr
    · exact ⟨Nat.lt_succ_self _, (hal m hm).2⟩
    · obtain ⟨hlt, hd⟩ := h.fresh m f hr
      refine ⟨Nat.lt_succ_of_lt hlt, Nat.lt_of_lt_of_le hd ?_⟩
      show _ ≤ if m.driver = .vsock then w'.next else n
      split
      · exact hw
      · exact hn
  · intro m f g hf hg
    rcases hmem.1 hf with ⟨hm, rfl⟩ | hf <;> rcases hmem.1 hg with ⟨hm', rfl⟩ | hg
    · rfl
    · exact absurd hg (hnew hm)
    · exact absurd hf (hnew hm')
    · exact h.holder m f g hf hg
  · intro f hl
    by_cases hfn : f = L.next
    · subst hfn
      rw [L.opened_next]
      refine ⟨hnd, fun m => ?_⟩
      rw [hmem]
      exact ⟨fun hm => .inl ⟨hm, rfl⟩, fun hm => hm.elim And.left fun hr => absurd rfl (hne hr)⟩
    · rw [L.opened_of_ne _ _ _ hfn]
      obtain ⟨hd, hiff⟩ := h.nodes f ((opened_live hl).resolve_left hfn)
      refine ⟨hd, fun m => ?_⟩
      rw [hiff, hmem]
      exact ⟨.inr, fun hm => hm.elim (fun hm => absurd hm.2 hfn) id⟩
  · intro m hm
    obtain ⟨f, hr, hl⟩ := h.closed m hm
    refine ⟨f, hmem.2 (.inr hr), ?_⟩
    simpa [Layer.opened, hne hr] using hl
  · intro f hl
    by_cases hfn : f = L.next
    · subst hfn
      rw [L.opened_next]
      exact ha
    · rw [L.opened_of_ne _ _ _ hfn]
      exact h.allocator f ((opened_live hl).resolve_left hfn)

private theorem released (hl : L.live f = true)
    (hheld : (L.released drv w' f).Held) (hw : w'.next = L.vs.next) : (L.released drv w' f).Ledger drv := by
  refine ⟨hheld, ?_, h.holder, fun g hg => h.nodes g (released_live.1 hg).2, ?_,
      fun g hg => h.allocator g (released_live.1 hg).2⟩
  · intro n g hr
    have hfr := h.fresh n g hr
    rw [← hw] at hfr
    exact hfr
  · intro n hn
    rcases mem_cons.1 hn with rfl | hn
    · refine ⟨f, ((h.nodes f hl).2 _).1 mem_cons_self, ?_⟩
      simp [Layer.released]
    · obtain ⟨g, hr, hg⟩ := h.closed n hn
      refine ⟨g, hr, ?_⟩
      by_cases hgf : g = f
      · simp [Layer.released, hgf]
      · simpa [Layer.released, hgf] using hg

/-- Every call keeps the ledger. -/
theorem step (op : Op) : (Socket.step drv L op).Ledger drv := by
  have hheld := h.held.step drv op
  have hends := step_ends drv h.held op
  generalize vsStep L.vs (stepVsock drv L op) = w' at hends
  generalize Socket.step drv L op = L' at hends hheld ⊢
  cases hends with
  | kept hw => exact h.kept hheld.fresh hw
  | refused a hw =>
    have h' := h.kept hheld.fresh hw
    exact ⟨hheld, h'.fresh, h'.holder, h'.nodes, h'.closed, h'.allocator⟩
  | openedVsock inet hi hw =>
    refine h.opened hheld (by rw [hw.1]; exact Nat.le_succ _) (Nat.le_refl _)
      (by simp [SocketAlloc.nodes]) ?_ fun _ => rfl
    intro m hm
    obtain rfl : m = _ := by simpa [SocketAlloc.nodes] using hm
    simp [hw.1]
  | openedOther family inet hi hw =>
    refine h.opened hheld (by rw [hw.1]) (Nat.le_succ _) (by simp [SocketAlloc.nodes]) ?_ fun _ => rfl
    intro m hm
    obtain rfl : m = _ := by simpa [SocketAlloc.nodes] using hm
    simp
  | openedFacade hv hw =>
    refine h.opened hheld (by rw [hw.1]; exact Nat.le_succ _) (Nat.le_succ _)
      (by simp [SocketAlloc.nodes]) ?_ (by simp)
    intro m hm
    obtain rfl | rfl : m = _ ∨ m = _ := by simpa [SocketAlloc.nodes] using hm
    · simp [hw.1]
    · simp
  | released hl hn hw => exact h.released hl hheld hn

end

end Layer.Ledger

/-- At the start there is no file. -/
theorem ledger_init (drv : Drivers) (cid : BitVec 32) (env : Nat → Vsock.Outcome) : (Layer.init cid env).Ledger drv :=
  ⟨held_init cid env, nofun, nofun, nofun, nofun, nofun⟩

def ReleasePlain (L : Layer) : Op → Prop
  | .release f => L.live f = true → (L.file f).stubNode = none
  | _ => True

def Layer.Leaked (L : Layer) : Prop := ∃ n f, (n, f) ∈ L.returned ∧ L.live f = false ∧ n ∉ L.closed

private theorem Layer.Leaked.breaks (h : L.Leaked) : ¬ L.Conserved := by
  obtain ⟨n, f, hr, hl, hn⟩ := h
  intro hc
  have hone := hc.closed_once n f hr
  rw [count_eq_zero.2 hn, hl] at hone
  cases hone

variable {n : PosixSocketNode}

private theorem not_closed_of_live (h : L.Ledger drv) (hl : L.live f = true) (hn : (n, f) ∈ L.returned) :
    n ∉ L.closed := by
  intro hc
  obtain ⟨g, hg, hd⟩ := h.closed n hc
  rw [h.holder n g f hg hn, hl] at hd
  cases hd

private theorem conserved_opened (hc : L.Conserved) {n : Nat} (h' : (L.opened w' n al).Ledger drv) :
    (L.opened w' n al).Conserved := by
  have hold {m : PosixSocketNode} {f : FileId} (hr : (m, f) ∈ L.returned) : (m, f) ∈ (L.opened w' n al).returned :=
    mem_append_right _ hr
  refine ⟨?_, ?_, hc.freed⟩
  · intro m f hr
    by_cases hfn : f = L.next
    · subst hfn
      have hl : (L.opened w' n al).live L.next = true := by simp [opened]
      rw [hl, if_pos rfl]
      exact count_eq_zero.2 (not_closed_of_live h' hl hr)
    · have hr' : (m, f) ∈ L.returned := by simpa [opened, Ne.symm hfn] using hr
      have hl : (L.opened w' n al).live f = L.live f := by simp [opened, hfn]
      rw [hl]
      exact hc.closed_once m f hr'
  · intro m hm
    obtain ⟨f, hr⟩ := hc.closed_returned m hm
    exact ⟨f, hold hr⟩

section
variable (h : L.Ledger drv)
include h

private theorem conserved_released (hc : L.Conserved)
    (hl : L.live f = true) (hs : (L.file f).stubNode = none) : (L.released drv w' f).Conserved := by
  have hnodes (n : PosixSocketNode) : n = (L.file f).node ↔ (n, f) ∈ L.returned := by
    rw [← (h.nodes f hl).2 n, nodes, hs]
    simp
  refine ⟨?_, ?_, ?_⟩
  · intro n g hr
    have hold := hc.closed_once n g hr
    show ((L.file f).node :: L.closed).count n = _
    by_cases hgf : g = f
    · subst hgf
      rw [(hnodes n).2 hr, count_cons_self, ← (hnodes n).2 hr, hold, hl]
      simp [released]
    · have hne : (L.file f).node ≠ n := by
        rintro rfl
        exact hgf (h.holder _ g f hr ((hnodes _).1 rfl))
      rw [count_cons_of_ne hne, hold]
      simp [released, hgf]
  · intro n hn
    rcases mem_cons.1 hn with rfl | hn
    · exact ⟨f, (hnodes _).1 rfl⟩
    · exact hc.closed_returned n hn
  · intro x hx
    rcases mem_cons.1 hx with rfl | hx
    · exact h.allocator f hl hs
    · exact hc.freed x hx

private theorem conserved_step (hc : L.Conserved) (hp : ReleasePlain L op) : (step drv L op).Conserved := by
  have h' := h.step op
  have hends := step_ends drv h.held op
  generalize step drv L op = L' at hends h' ⊢
  cases hends with
  | kept => exact ⟨hc.closed_once, hc.closed_returned, hc.freed⟩
  | refused a =>
    refine ⟨hc.closed_once, hc.closed_returned, ?_⟩
    intro x hx
    rcases mem_cons.1 hx with rfl | hx
    · rfl
    · exact hc.freed x hx
  | openedVsock | openedOther | openedFacade => exact conserved_opened hc h'
  | released hl => exact conserved_released h hc hl (hp hl)

private theorem leaked_release (hl : L.live f = true) (hs : (L.file f).stubNode = some n) :
    (step drv L (.release f)).Leaked := by
  obtain ⟨hnd, hiff⟩ := h.nodes f hl
  simp only [nodes, hs, Option.toList_some, nodup_cons, mem_singleton] at hnd
  have hr : (n, f) ∈ L.returned := by
    rw [← hiff]
    simp [nodes, hs]
  rw [step_release h.held hl]
  refine ⟨n, f, hr, by simp [released], ?_⟩
  intro hm
  rcases mem_cons.1 hm with rfl | hm
  · exact hnd.1 rfl
  · exact not_closed_of_live h hl hr hm

private theorem leaked_step (hk : L.Leaked) (op : Op) : (step drv L op).Leaked := by
  obtain ⟨n, f, hr, hl, hn⟩ := hk
  have hne : f ≠ L.next := Nat.ne_of_lt (h.fresh n f hr).1
  have hends := step_ends drv h.held op
  generalize step drv L op = L' at hends ⊢
  cases hends with
  | kept | refused => exact ⟨n, f, hr, hl, hn⟩
  | openedVsock | openedOther | openedFacade =>
    refine ⟨n, f, mem_append_right _ hr, ?_, hn⟩
    simpa [opened, hne] using hl
  | @released g hg =>
    have hgf : f ≠ g := by
      rintro rfl
      rw [hl] at hg
      cases hg
    refine ⟨n, f, hr, by simpa [released, hgf] using hl, ?_⟩
    intro hm
    rcases mem_cons.1 hm with rfl | hm
    · exact hgf (h.holder _ f g hr (((h.nodes g hg).2 _).1 mem_cons_self))
    · exact hn hm

end

/-- The driver sockets and the memory of the files are conserved exactly in the runs that release no facade. -/
theorem conserved_iff (drv : Drivers) (cid : BitVec 32) (env : Nat → Vsock.Outcome) (ops : List Op) :
    (Runs.run (step drv) (Layer.init cid env) ops).Conserved ↔
      Runs.Meets (step drv) ReleasePlain (Layer.init cid env) ops := by
  refine Runs.run_iff_meets (fun L op h => h.step op)
    (fun L op h hc hp => conserved_step h hc hp) ?_ (fun L op h hk => leaked_step h hk op)
    (fun L hk => hk.breaks) (ledger_init drv cid env) ⟨nofun, nofun, nofun⟩
  intro L op h _ hbad
  cases op with
  | release f =>
    obtain ⟨hl, hs⟩ := Classical.not_imp.1 hbad
    obtain ⟨n, hn⟩ := Option.ne_none_iff_exists'.1 hs
    exact leaked_release h hl hn
  | socket | accept | bind | listen | connect | call | rx | reset => exact absurd trivial hbad

/-- A facade is made and released: the AF_INET socket has not been closed. -/
theorem not_conserved : ¬ (Runs.run (step ⟨fun _ => true, fun _ => 0⟩) (Layer.init 3 fun _ => .good)
    [.socket 2 1 6 true (.ok ()), .release 0]).Conserved := by
  intro h
  have hone := h.closed_once ⟨0, .other 2⟩ 0 (by decide)
  revert hone
  decide

end

open Vsock (Errno)

section
variable {drv : Drivers} {L : Layer} {f : FileId}

/-- An open file that was made by `socket(AF_INET, SOCK_STREAM)` over a vsock, or by `accept` on such a file. -/
def Layer.IsInet (L : Layer) (f : FileId) : Prop := L.live f = true ∧ (L.file f).inet = true

def Layer.vsockOf (L : Layer) (f : FileId) : Vsock.VirtioVsock := L.vs.sock (L.file f).node.sockData

/-- The facades and what descends from them hold a vsock. -/
structure Layer.InetVsock (L : Layer) : Prop where
  held : L.Held
  driver : ∀ f, L.IsInet f → (L.file f).node.driver = .vsock
  facade : ∀ f, L.live f = true → (L.file f).stubNode.isSome = true → (L.file f).inet = true

private theorem Layer.InetVsock.opened (h : L.InetVsock) {w' : World} {n : Nat} {al : SocketAlloc}
    (hheld : (L.opened w' n al).Held) (hal : al.inet = true → al.node.driver = .vsock)
    (hst : al.stubNode.isSome = true → al.inet = true) : (L.opened w' n al).InetVsock := by
  refine ⟨hheld, fun f hf => ?_, fun f hl => ?_⟩
  · by_cases hfn : f = L.next
    · subst hfn
      rw [IsInet, L.opened_next] at hf
      rw [L.opened_next]
      exact hal hf.2
    · rw [IsInet, L.opened_of_ne _ _ _ hfn] at hf
      rw [L.opened_of_ne _ _ _ hfn]
      exact h.driver f ⟨(opened_live hf.1).resolve_left hfn, hf.2⟩
  · by_cases hfn : f = L.next
    · subst hfn
      rw [L.opened_next]
      exact hst
    · rw [L.opened_of_ne _ _ _ hfn]
      exact h.facade f ((opened_live hl).resolve_left hfn)

/-- Every call keeps the facades and what descends from them on vsocks. -/
theorem Layer.InetVsock.step (h : L.InetVsock) (drv : Drivers) (op : Op) : (step drv L op).InetVsock := by
  have hheld := h.held.step drv op
  have hends := step_ends drv h.held op
  generalize vsStep L.vs (stepVsock drv L op) = w' at hends
  generalize Socket.step drv L op = L' at hends hheld ⊢
  cases hends with
  | kept | refused => exact ⟨hheld, h.driver, h.facade⟩
  | openedVsock => exact h.opened hheld (fun _ => rfl) nofun
  | openedFacade => exact h.opened hheld (fun _ => rfl) fun _ => rfl
  | openedOther family inet hi =>
    refine h.opened hheld (fun hinet => ?_) nofun
    obtain ⟨f, hl, hf, hd⟩ := hi hinet
    exact absurd (h.driver f ⟨hl, hf⟩) hd
  | released =>
    exact ⟨hheld, fun g hg => h.driver g ⟨(released_live.1 hg.1).2, hg.2⟩,
        fun g hg => h.facade g (released_live.1 hg).2⟩

theorem inetVsock_init (cid : BitVec 32) (env : Nat → Vsock.Outcome) : (Layer.init cid env).InetVsock :=
  ⟨held_init cid env, fun _ hf => (by cases hf.1), nofun⟩

/-- After every run the facades and what descends from them hold a vsock. -/
theorem inetVsock_of_run (drv : Drivers) (cid : BitVec 32) (env : Nat → Vsock.Outcome) (ops : List Op) :
    (Runs.run (step drv) (Layer.init cid env) ops).InetVsock :=
  Runs.run_invariant (fun _ op h => h.step drv op) (inetVsock_init cid env) ops

inductive AddrCall
  | getsockname (addrLen : Option Nat) (ext : Except Errno Name)
  | getpeername (addrLen : Option Nat) (ext : Except Errno Name)
  | accept (addr : Bool) (addrLen : Option Nat) (alloc : Bool) (ext : Except Errno (Option Name))
  | connect (addr : Sockaddr) (addrLen : Nat) (ext : Except Errno Unit)

/-- The address that is returned is one of AF_INET, and an address of AF_INET is not refused for its family. -/
def FamilyOk (drv : Drivers) (L : Layer) (f : FileId) : AddrCall → Prop
  | .getsockname addrLen ext => ∀ a, getsockname L f addrLen ext = .ok a → a.addr.saFamily = AF_INET
  | .getpeername addrLen ext => ∀ a, getpeername L f addrLen ext = .ok a → a.addr.saFamily = AF_INET
  | .accept addr addrLen alloc ext => ∀ g a, (ukSocketAccept drv L f addr addrLen alloc ext).2 = .ok (g, some a) →
      a.addr.saFamily = AF_INET
  | .connect addr addrLen ext => addr.saFamily = AF_INET → addrLen = sizeofSockaddrIn →
      (connect L f addr addrLen ext).2 ≠ .error .EAFNOSUPPORT

/-- Memory for the new socket is available, and the request can be answered. -/
def Accepts (w : World) : Prop :=
  (w.env w.tick).alloc = true ∧ (w.env (w.tick + 1)).alloc = true ∧ (w.env (w.tick + 2)).alloc = true ∧
    (w.env (w.tick + 3)).xmit = none

def AddrSafe (L : Layer) (f : FileId) : AddrCall → Prop
  | .getsockname addrLen _ => (L.file f).stubNode.isSome = true ∨ addrLen = none
  | .getpeername addrLen _ => addrLen = none ∨ (L.vsockOf f).state ≠ .OPEN
  | .accept addr addrLen alloc _ => addr = false ∨ addrLen = none ∨ alloc = false ∨ (L.vsockOf f).state ≠ .LISTENING ∨
      (L.vsockOf f).acceptQueue = [] ∨ ¬ Accepts L.vs
  | .connect addr addrLen _ => addr.saFamily ≠ AF_INET ∨ addrLen ≠ sizeofSockaddrIn

section
variable (hd : (L.file f).node.driver = .vsock)
include hd

/-- The family is right exactly if the file is a facade or no address is asked for. -/
theorem getsockname_iff (addrLen : Option Nat) (ext : Except Errno Name) :
    FamilyOk drv L f (.getsockname addrLen ext) ↔ AddrSafe L f (.getsockname addrLen ext) := by
  simp only [FamilyOk, AddrSafe, getsockname, posixSocketGetsockname, hd]
  cases hs : (L.file f).stubNode.isSome <;> cases addrLen <;>
    simp [Vsock.vsockGetsockname, Except.map, Vsock.returnedAddr, Name.ofVm, Sockaddr.ofVm, Sockaddr.ofPort, AF_INET,
      Vsock.AF_VSOCK]

theorem getpeername_iff (addrLen : Option Nat) (ext : Except Errno Name) :
    FamilyOk drv L f (.getpeername addrLen ext) ↔ AddrSafe L f (.getpeername addrLen ext) := by
  simp only [FamilyOk, AddrSafe, getpeername, hd, vsockOf]
  cases addrLen with
  | none => simp [Vsock.vsockGetpeername, Except.map]
  | some n =>
    by_cases hs : (L.vs.sock (L.file f).node.sockData).state = .OPEN <;>
      simp [Vsock.vsockGetpeername, Except.map, hs, Vsock.returnedAddr, Name.ofVm, Sockaddr.ofVm, AF_INET,
          Vsock.AF_VSOCK]

/-- An address of AF_INET has the length of one of AF_VSOCK, and then its family is looked at. -/
theorem connect_iff (addr : Sockaddr) (addrLen : Nat) (ext : Except Errno Unit) :
    FamilyOk drv L f (.connect addr addrLen ext) ↔ AddrSafe L f (.connect addr addrLen ext) := by
  simp only [FamilyOk, AddrSafe, connect, hd]
  constructor
  · intro h
    by_contra hc
    obtain ⟨hf, hn⟩ := not_or.1 hc
    refine h (not_not.1 hf) (not_not.1 hn) ?_
    simp only [Vsock.vsockConnect, not_not.1 hn, Sockaddr.vm, not_not.1 hf]
    rfl
  · rintro (hf | hn) hf' hn'
    · exact absurd hf' hf
    · exact absurd hn' hn

end

theorem accept_ok_iff (w : World) (s : SockId) (entry : Vsock.AcceptEntry) :
    (∃ t, (Vsock.virtioVsockAccept w s entry).2 = .ok t) ↔ Accepts w := by
  have hx := Vsock.xmitHdr_ok_iff w.advance.advance
    ((Vsock.VirtioVsock.accepted w.cid (w.sock s) entry).hdr w.cid Vsock.OP_RESPONSE 0 0) (some entry.req)
  have htick : w.advance.advance.Transmits ↔ (w.env (w.tick + 2)).alloc = true ∧ (w.env (w.tick + 3)).xmit = none :=
    Iff.rfl
  unfold Vsock.virtioVsockAccept Accepts
  rw [← htick, ← hx]
  dsimp only [Vsock.ukMalloc, World.outcome]
  cases (w.env w.tick).alloc with
  | false => simp
  | true =>
    dsimp only
    rw [show w.advance.env w.advance.tick = w.env (w.tick + 1) from rfl]
    cases (w.env (w.tick + 1)).alloc with
    | false => simp
    | true =>
      simp only [true_and, Vsock.virtioVsockConnRespond]
      cases hr : Vsock.xmitHdr w.advance.advance
          ((Vsock.VirtioVsock.accepted w.cid (w.sock s) entry).hdr w.cid Vsock.OP_RESPONSE 0 0) (some entry.req) with
      | mk w1 r =>
        have hr' : Vsock.xmitHdr w.advance.advance
          ((Vsock.VirtioVsock.accepted w.advance.advance.cid (w.advance.advance.sock s) entry).hdr
            w.advance.advance.cid Vsock.OP_RESPONSE 0 0) (some entry.req) = (w1, r) := hr
        rw [hr']
        cases r <;> simp

private theorem accept4_snd {w : World} {s : SockId} (addr : Bool) (addrLen : Option Nat)
    {entry : Vsock.AcceptEntry} {queue : List Vsock.AcceptEntry} (ha : ¬ (addr = true ∧ addrLen = none))
    (hs : (w.sock s).state = .LISTENING) (hq : (w.sock s).acceptQueue = entry :: queue) :
    ∃ peer, (Vsock.vsockAccept4 w s addr addrLen).2 =
      (Vsock.virtioVsockAccept (w.modify s (·.popped queue)) s entry).2.map fun t =>
        (t, if addr then some (Vsock.returnedAddr peer (addrLen.getD 0)) else none) := by
  unfold Vsock.vsockAccept4
  rw [if_neg ha, if_neg (not_not.2 hs)]
  simp only [hq]
  rw [show (w.modify s fun v => { v with acceptQueue := queue, acceptQueueLength := v.acceptQueueLength - 1 }) =
    w.modify s (·.popped queue) from rfl]
  cases hr : Vsock.virtioVsockAccept (w.modify s (·.popped queue)) s entry with
  | mk w1 r =>
    cases r with
    | error e => exact ⟨.any, rfl⟩
    | ok t => exact ⟨_, rfl⟩

/-- The family is right exactly if no address is returned: none is asked for, nothing is queued, or the accept
fails. -/
theorem accept_iff (hd : (L.file f).node.driver = .vsock) (addr : Bool) (addrLen : Option Nat) (alloc : Bool)
    (ext : Except Errno (Option Name)) :
    FamilyOk drv L f (.accept addr addrLen alloc ext) ↔ AddrSafe L f (.accept addr addrLen alloc ext) := by
  -- The call returns the address that the driver returns.
  have hres : FamilyOk drv L f (.accept addr addrLen alloc ext) ↔ (alloc = true → ∀ t a,
      (Vsock.vsockAccept4 L.vs (L.file f).node.sockData addr addrLen).2 = .ok (t, some a) →
        a.1.svmFamily = AF_INET) := by
    simp only [FamilyOk, ukSocketAccept, posixSocketAccept4, hd]
    cases alloc with
    | false => simp
    | true =>
      cases Vsock.vsockAccept4 L.vs (L.file f).node.sockData addr addrLen with
      | mk w1 r =>
        cases r with
        | error e => simp
        | ok p =>
          obtain ⟨t, a⟩ := p
          cases a <;> simp [Name.ofVm, Sockaddr.ofVm]
  rw [hres]
  simp only [AddrSafe, vsockOf]
  generalize (L.file f).node.sockData = s
  constructor
  · intro h
    by_contra hc
    simp only [not_or, ne_eq, not_not, Bool.not_eq_false] at hc
    obtain ⟨rfl, hlen, rfl, hs, hq, hacc⟩ := hc
    obtain ⟨entry, queue, hq⟩ := List.exists_cons_of_ne_nil hq
    obtain ⟨peer, hp⟩ := accept4_snd true addrLen (by simp [hlen]) hs hq
    have hacc' : Accepts (L.vs.modify s (·.popped queue)) := hacc
    obtain ⟨t, ht⟩ := (accept_ok_iff _ s entry).2 hacc'
    rw [ht] at hp
    exact absurd (h rfl t _ hp) (show ¬ Vsock.AF_VSOCK = AF_INET by decide)
  · intro hsafe halloc t a hok
    exfalso
    by_cases ha : addr = true ∧ addrLen = none
    · simp [Vsock.vsockAccept4, ha.1, ha.2] at hok
    by_cases hs : (L.vs.sock s).state = .LISTENING
    swap
    · simp only [Vsock.vsockAccept4, if_neg ha, if_pos hs] at hok
      cases hok
    cases hq : (L.vs.sock s).acceptQueue with
    | nil =>
      simp only [Vsock.vsockAccept4, if_neg ha, if_neg (not_not.2 hs), hq] at hok
      cases hok
    | cons entry queue =>
      obtain ⟨peer, hp⟩ := accept4_snd addr addrLen ha hs hq
      rw [hp] at hok
      cases hv : (Vsock.virtioVsockAccept (L.vs.modify s (·.popped queue)) s entry).2 with
      | error e =>
        rw [hv] at hok
        cases hok
      | ok t =>
        have hacc : Accepts L.vs := (accept_ok_iff (L.vs.modify s (·.popped queue)) s entry).1 ⟨t, hv⟩
        rw [hv] at hok
        -- The call succeeds, so no address was asked for.
        rcases hsafe with rfl | rfl | hal | hns | hnq | hna
        · simp [Except.map] at hok
        · have hf : addr = false := by simpa using ha
          simp [Except.map, hf] at hok
        · rw [halloc] at hal
          cases hal
        · exact hns hs
        · rw [hq] at hnq
          cases hnq
        · exact hna hacc

/-- Exactly these calls on a facade, or on a file that descends from one, keep to the family AF_INET. -/
theorem familyOk_iff (drv : Drivers) (cid : BitVec 32) (env : Nat → Vsock.Outcome) (ops : List Op) (f : FileId)
    (hf : (Runs.run (step drv) (Layer.init cid env) ops).IsInet f) (c : AddrCall) :
    FamilyOk drv (Runs.run (step drv) (Layer.init cid env) ops) f c ↔
      AddrSafe (Runs.run (step drv) (Layer.init cid env) ops) f c := by
  have hd := (inetVsock_of_run drv cid env ops).driver f hf
  cases c with
  | getsockname addrLen ext => exact getsockname_iff hd addrLen ext
  | getpeername addrLen ext => exact getpeername_iff hd addrLen ext
  | accept addr addrLen alloc ext => exact accept_iff hd addr addrLen alloc ext
  | connect addr addrLen ext => exact connect_iff hd addr addrLen ext

/-- A facade reports its own address in the family AF_INET. -/
theorem familyOk_facade : FamilyOk ⟨fun _ => true, fun _ => 0⟩
    (Runs.run (step ⟨fun _ => true, fun _ => 0⟩) (Layer.init 3 fun _ => .good) [.socket 2 1 6 true (.ok ())]) 0
    (.getsockname (some 16) (.error .EINVAL)) :=
  (familyOk_iff ⟨fun _ => true, fun _ => 0⟩ 3 (fun _ => .good) [.socket 2 1 6 true (.ok ())] 0 ⟨rfl, rfl⟩
    (.getsockname (some 16) (.error .EINVAL))).2 (.inl rfl)

/-- An AF_INET socket cannot be connected to an AF_INET address. -/
theorem not_familyOk : ¬ FamilyOk ⟨fun _ => true, fun _ => 0⟩
    (Runs.run (step ⟨fun _ => true, fun _ => 0⟩) (Layer.init 3 fun _ => .good) [.socket 2 1 6 true (.ok ())]) 0
    (.connect ⟨AF_INET, 0x5000, 0x0100007f, 0⟩ sizeofSockaddrIn (.ok ())) := by
  intro h
  exact h rfl rfl rfl

end

end Unikraft.Socket
