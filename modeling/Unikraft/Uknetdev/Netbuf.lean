import Mathlib.Algebra.Group.Nat.Defs
import Mathlib.Tactic.Common

/-!
# Netbufs in given memory

`uk_netbuf_prepare_buf` puts the descriptor of a netbuf at the end of the given memory. It compares the length of the
descriptor with the address where the memory ends, so that a descriptor for which there is no room lies before the
memory.
-/

namespace Unikraft.Uknetdev

def NETBUF_ADDR_ALIGN_UP (x : Nat) : Nat := (x + 7) % 2 ^ 64 / 8 * 8

def NETBUF_ADDR_ALIGN_DOWN (x : Nat) : Nat := x / 8 * 8

/-- The size of `struct uk_netbuf`. -/
def sizeofNetbuf : Nat := 96

structure Netbuf where
  /-- Where the struct itself is. -/
  m : Nat
  buf : Nat
  buflen : Nat
  data : Nat
  priv : Option Nat
  deriving DecidableEq

/-- `none` is a failed assertion. -/
def ukNetbufInitIndir (m buf buflen headroom : Nat) (priv : Option Nat) : Option Netbuf :=
  if m ≠ 0 ∧ (buf ≠ 0 ∨ buflen = 0) ∧ headroom ≤ buflen then some ⟨m, buf, buflen, (buf + headroom) % 2 ^ 64, priv⟩
    else none

/-- The length of the struct and the private area. -/
def metaLen (privlen : Nat) : Nat := NETBUF_ADDR_ALIGN_UP ((sizeofNetbuf + privlen) % 2 ^ 64)

/-- A failed assertion, or the netbuf if it is not `NULL`. -/
def ukNetbufPrepareBuf (mem size headroom privlen : Nat) : Option (Option Netbuf) :=
  let top := NETBUF_ADDR_ALIGN_DOWN ((mem + size) % 2 ^ 64)
  if mem = 0 then none
  else if top < metaLen privlen then some none
  else
    let m := top - metaLen privlen
    (ukNetbufInitIndir m mem ((2 ^ 64 + m - mem) % 2 ^ 64) headroom
      (if 0 < privlen then some ((m + sizeofNetbuf) % 2 ^ 64) else none)).map some

def allocLen (buflen privlen : Nat) : Nat := (NETBUF_ADDR_ALIGN_UP buflen + metaLen privlen) % 2 ^ 64

/-- The call in which `uk_memalign` returns `mem`. -/
def ukNetbufAllocBuf (mem : Option Nat) (buflen headroom privlen : Nat) : Option (Option Netbuf) :=
  if buflen = 0 ∨ buflen < headroom then none
  else match mem with
    | none => some none
    | some mem => ukNetbufPrepareBuf mem (allocLen buflen privlen) headroom privlen

/-- The starts and lengths of the buffer, the struct and the private area. -/
def Netbuf.areas (n : Netbuf) (privlen : Nat) : List (Nat × Nat) :=
  (n.buf, n.buflen) :: (n.m, sizeofNetbuf) :: n.priv.toList.map (·, privlen)

structure Netbuf.Fits (n : Netbuf) (mem size headroom privlen : Nat) : Prop where
  priv : n.priv.isSome = true ↔ 0 < privlen
  inside : ∀ a ∈ n.areas privlen, mem ≤ a.1 ∧ a.1 + a.2 ≤ mem + size
  disjoint : (n.areas privlen).Pairwise fun a b => a.1 + a.2 ≤ b.1 ∨ b.1 + b.2 ≤ a.1
  aligned : 8 ∣ n.m ∧ ∀ p ∈ n.priv, 8 ∣ p
  headroom : headroom ≤ n.buflen ∧ n.data = n.buf + headroom

/-- No room is found, or there is room for `len` bytes, the struct and the private area. -/
def Room (mem size len privlen : Nat) : Prop :=
  NETBUF_ADDR_ALIGN_DOWN ((mem + size) % 2 ^ 64) < metaLen privlen ∨
    mem + len + (sizeofNetbuf + privlen + 7) / 8 * 8 ≤ NETBUF_ADDR_ALIGN_DOWN ((mem + size) % 2 ^ 64)

/-- A call returns `NULL` or a netbuf with a property. -/
def Returns (r : Option (Option Netbuf)) (P : Netbuf → Prop) : Prop := ∃ n, r = some n ∧ ∀ m ∈ n, P m

variable {mem size headroom privlen : Nat}

section
variable (hmem : 0 < mem)
include hmem

/-- A buffer is refused exactly if the aligned end of the area is lower than the length of the metadata. -/
theorem prepareBuf_null_iff : ukNetbufPrepareBuf mem size headroom privlen = some none ↔
    NETBUF_ADDR_ALIGN_DOWN ((mem + size) % 2 ^ 64) < metaLen privlen := by
  simp [ukNetbufPrepareBuf, Nat.ne_of_gt hmem]

variable {top : Nat} (htop : top = NETBUF_ADDR_ALIGN_DOWN ((mem + size) % 2 ^ 64))
include htop

private theorem prepareBuf_some {n : Netbuf} (h : ukNetbufPrepareBuf mem size headroom privlen = some (some n)) :
    metaLen privlen ≤ top ∧ n.m = top - metaLen privlen ∧ n.m ≠ 0 ∧ n.buf = mem ∧
    n.buflen = (2 ^ 64 + n.m - mem) % 2 ^ 64 ∧
      headroom ≤ n.buflen ∧ n.priv = if 0 < privlen then some ((n.m + sizeofNetbuf) % 2 ^ 64) else none := by
  unfold ukNetbufPrepareBuf at h
  simp only [if_neg (Nat.ne_of_gt hmem), ← htop] at h
  by_cases hnull : top < metaLen privlen
  · rw [if_pos hnull] at h
    cases h
  · rw [if_neg hnull, Option.map_eq_some_iff] at h
    obtain ⟨n', hn, heq⟩ := h
    cases heq
    obtain ⟨hok, hn⟩ := Option.ite_none_right_eq_some.1 hn
    cases hn
    exact ⟨Nat.not_lt.1 hnull, rfl, hok.1, rfl, rfl, hok.2.2, rfl⟩

/-- Before a netbuf that fits there is room for its buffer. The private area does not wrap around, as the struct does
not start at 0. -/
private theorem room_of_fits {n : Netbuf} (hsize : mem + size ≤ 2 ^ 64)
    (h : ukNetbufPrepareBuf mem size headroom privlen = some (some n))
    (hfits : n.Fits mem size headroom privlen) : mem + n.buflen + (sizeofNetbuf + privlen + 7) / 8 * 8 ≤ top := by
  obtain ⟨hle, hm, hm0, -, hbuflen, -, hpriv⟩ := prepareBuf_some hmem htop h
  have hin := hfits.inside (n.m, sizeofNetbuf) (by simp [Netbuf.areas])
  have haligned := hfits.aligned.1
  have hmeta : metaLen privlen = (sizeofNetbuf + privlen + 7) / 8 * 8 := by
    unfold metaLen NETBUF_ADDR_ALIGN_UP
    by_cases hpos : 0 < privlen
    · rw [if_pos hpos] at hpriv
      have hp := hfits.inside ((n.m + sizeofNetbuf) % 2 ^ 64, privlen) (by simp [Netbuf.areas, hpriv])
      simp only [sizeofNetbuf] at hin hp ⊢
      omega
    · simp only [sizeofNetbuf]
      omega
  omega

private theorem prepareBuf_of_room {m : Nat} (hm : m + (sizeofNetbuf + privlen + 7) / 8 * 8 = top)
    (hroom : mem + headroom ≤ m) :
    ukNetbufPrepareBuf mem size headroom privlen =
      some (some ⟨m, mem, m - mem, mem + headroom, if 0 < privlen then some (m + 96) else none⟩) := by
  have hlt : top < 2 ^ 64 := by
    rw [htop, NETBUF_ADDR_ALIGN_DOWN]
    omega
  have hmeta : metaLen privlen = top - m := by
    unfold metaLen NETBUF_ADDR_ALIGN_UP
    simp only [sizeofNetbuf] at hm ⊢
    omega
  unfold ukNetbufPrepareBuf ukNetbufInitIndir
  simp only [← htop, hmeta, Nat.sub_sub_self (by omega : m ≤ top), sizeofNetbuf] at hm ⊢
  rw [if_neg (by omega), if_neg (by omega), show (2 ^ 64 + m - mem) % 2 ^ 64 = m - mem by omega, if_pos (by omega),
    Nat.mod_eq_of_lt (by omega : mem + headroom < 2 ^ 64), Nat.mod_eq_of_lt (by omega : m + 96 < 2 ^ 64)]
  rfl

omit hmem in
private theorem fits_of_room {m : Nat} (hm : m + (sizeofNetbuf + privlen + 7) / 8 * 8 = top)
    (hroom : mem + headroom ≤ m) :
    Netbuf.Fits ⟨m, mem, m - mem, mem + headroom, if 0 < privlen then some (m + 96) else none⟩
      mem size headroom privlen := by
  have hle : top ≤ mem + size ∧ 8 ∣ m := by
    rw [NETBUF_ADDR_ALIGN_DOWN] at htop
    omega
  simp only [sizeofNetbuf] at hm
  refine ⟨by split_ifs <;> simp_all, ?_, ?_, ⟨hle.2, ?_⟩, by dsimp only; omega, rfl⟩
  · split_ifs <;> simp [Netbuf.areas, sizeofNetbuf] <;> omega
  · split_ifs <;> simp [Netbuf.areas, sizeofNetbuf] <;> omega
  · split_ifs <;> simp
    omega

end

/-- A netbuf with a buffer for `len` bytes is returned if and only if there is room for them. -/
theorem prepareBuf_iff {len align : Nat} (hmem : 0 < mem) (hsize : mem + size ≤ 2 ^ 64) (hlen : headroom ≤ len)
    (halign : align ∣ mem) :
    Returns (ukNetbufPrepareBuf mem size headroom privlen)
      (fun n => n.Fits mem size headroom privlen ∧ len ≤ n.buflen ∧ align ∣ n.buf) ↔ Room mem size len privlen := by
  unfold Room
  generalize htop : NETBUF_ADDR_ALIGN_DOWN ((mem + size) % 2 ^ 64) = top
  constructor
  · rintro ⟨_ | n, hn, hfits⟩
    · exact .inl (htop ▸ (prepareBuf_null_iff hmem).1 hn)
    · obtain ⟨hfits, hle, -⟩ := hfits n rfl
      have hroom := room_of_fits hmem htop.symm hsize hn hfits
      exact .inr (by omega)
  · rintro (hnull | hroom)
    · exact ⟨none, (prepareBuf_null_iff hmem).2 (htop ▸ hnull), by simp⟩
    · obtain ⟨m, hm⟩ := Nat.exists_eq_add_of_le' (Nat.le_trans (Nat.le_add_left ..) hroom)
      refine ⟨_, prepareBuf_of_room hmem htop.symm hm.symm (by omega), ?_⟩
      rintro _ ⟨⟩
      exact ⟨fits_of_room htop.symm hm.symm (by omega), by dsimp only; omega, halign⟩

/-- The second part is about a call in which `uk_memalign` returns `mem` for the length and the alignment it is called
with. -/
theorem netbuf_fits_iff (headroom privlen : Nat) (hmem : 0 < mem) (hsize : mem + size ≤ 2 ^ 64) :
    (Returns (ukNetbufPrepareBuf mem size headroom privlen) (·.Fits mem size headroom privlen) ↔
      Room mem size headroom privlen) ∧
      ∀ buflen bufalign, 0 < buflen → headroom ≤ buflen → size = allocLen buflen privlen → bufalign ∣ mem →
        (Returns (ukNetbufAllocBuf (some mem) buflen headroom privlen)
          (fun n => n.Fits mem size headroom privlen ∧ buflen ≤ n.buflen ∧ bufalign ∣ n.buf) ↔
          Room mem size buflen privlen) := by
  constructor
  · have hfits : (fun n : Netbuf => n.Fits mem size headroom privlen) = fun n => n.Fits mem size headroom privlen ∧
        headroom ≤ n.buflen ∧ 1 ∣ n.buf :=
          funext fun n => propext ⟨fun h => ⟨h, h.headroom.1, Nat.one_dvd _⟩, And.left⟩
    rw [hfits]
    exact prepareBuf_iff hmem hsize (Nat.le_refl _) (Nat.one_dvd _)
  · rintro buflen bufalign hpos hle rfl halign
    rw [ukNetbufAllocBuf, if_neg (by omega)]
    exact prepareBuf_iff hmem hsize hle halign

theorem netbuf_fits_page : Returns (ukNetbufPrepareBuf 4096 2048 64 16) (·.Fits 4096 2048 64 16) ∧
    Returns (ukNetbufAllocBuf (some 4096) 1936 64 16)
    (fun n => n.Fits 4096 2048 64 16 ∧ 1936 ≤ n.buflen ∧ 64 ∣ n.buf) :=
  have h := netbuf_fits_iff 64 16 (by decide : 0 < 4096) (by decide : 4096 + 2048 ≤ 2 ^ 64)
  ⟨h.1.2 (.inr (by decide)), (h.2 1936 64 (by decide) (by decide) (by decide) (by decide)).2 (.inr (by decide))⟩

/-- In 16 bytes the struct lies before the memory, and memory that is not aligned is too short by a byte. -/
theorem not_netbuf_fits : ukNetbufPrepareBuf 4096 16 0 0 = some (some ⟨4016, 4096, 2 ^ 64 - 80, 4096, none⟩) ∧
    ukNetbufAllocBuf (some 4097) 8 0 0 = some (some ⟨4104, 4097, 7, 4097, none⟩) := by
  decide

end Unikraft.Uknetdev
