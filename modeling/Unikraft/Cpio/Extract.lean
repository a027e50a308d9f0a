import Mathlib.Tactic.Common

/-!
# Extraction of a CPIO archive

`ukcpio_extract` walks over the headers of an archive in memory, and may leave it: a section is checked against the
end `buflen` bytes behind the current header, and the name is compared with that of the trailer before its size is
checked. It stays inside for the archives of `Archive`. Of the messages only those of errors are printed, which is the
default.
-/

namespace Unikraft.Cpio

open List

abbrev Mem := Nat → BitVec 8

def PATH_MAX : Nat := 4096

inductive UkcpioError where
  | success | invalidHeader | fileCreateFailed | fileWriteFailed | fileChmodFailed | fileCloseFailed | mkdirFailed
  | symlinkFailed | malformedInput | nodest | nomem | linkFailed
  deriving DecidableEq

/-- What is inspected or passed on: some bytes, or a string with its NUL. -/
inductive Access where
  | bytes (a n : Nat)
  | str (a : Nat)

def Access.Inside (mem : Mem) (lo hi : Nat) : Access → Prop
  | .bytes a n => ∀ i < n, lo ≤ a + i ∧ a + i < hi
  | .str a => lo ≤ a ∧ ∃ n, a + n < hi ∧ mem (a + n) = 0

def chars (l : List Char) : List (BitVec 8) := l.map fun c => BitVec.ofNat 8 c.toNat

def load (mem : Mem) (a n : Nat) : List (BitVec 8) := (List.range n).map fun i => mem (a + i)

/-- Whether the string at `a` is `s`, which ends with its NUL, and the number of bytes read up to the first
difference. -/
def strcmp (mem : Mem) : Nat → List (BitVec 8) → Bool × Nat
  | _, [] => (true, 0)
  | a, c :: s => if mem a = c then ((strcmp mem (a + 1) s).1, (strcmp mem (a + 1) s).2 + 1) else (false, 1)

def hexDigit (c : BitVec 8) : Option Nat :=
  if '0'.toNat ≤ c.toNat ∧ c.toNat ≤ '9'.toNat then some (c.toNat - '0'.toNat)
  else if 'A'.toNat ≤ c.toNat ∧ c.toNat ≤ 'F'.toNat then some (c.toNat - 'A'.toNat + 10)
  else if 'a'.toNat ≤ c.toNat ∧ c.toNat ≤ 'f'.toNat then some (c.toNat - 'a'.toNat + 10)
  else none

def snhexToInt : List (BitVec 8) → Nat → Nat
  | [], val => val
  | c :: buf, val =>
    match hexDigit c with
    | some d => snhexToInt buf ((val * 16 + d) % 0x100000000)
    | none => 0

def alignUp (p : Nat) : Nat := (p + 3) / 4 * 4

structure Header where
  mem : Mem
  addr : Nat

namespace Header

variable (h : Header)

def field (off : Nat) : Nat := snhexToInt (load h.mem (h.addr + off) 8) 0

def inodeNum : Nat := h.field 6
def mode : Nat := h.field 14
def nlink : Nat := h.field 38
def filesize : Nat := h.field 54
def namesize : Nat := h.field 94

def validMagic : Bool :=
  load h.mem h.addr 6 = chars ['0', '7', '0', '7', '0', '1'] || load h.mem h.addr 6 =
    chars ['0', '7', '0', '7', '0', '2']

def filename : Nat := h.addr + 110

def data : Nat := alignUp (h.filename + h.namesize)

def next : Header := ⟨h.mem, alignUp (h.data + h.filesize)⟩

def cmpTrailer : Bool × Nat :=
  strcmp h.mem h.filename (chars ['T', 'R', 'A', 'I', 'L', 'E', 'R', '!', '!', '!', '\x00'])

def cmpDot : Bool × Nat := strcmp h.mem h.filename (chars ['.', '\x00'])

def islast : Bool := h.cmpTrailer.1

end Header

def isFileOfType (mode bits : Nat) : Bool := mode &&& 0o170000 = bits

def cpioIlistElmUpto (ino : Nat) : List Nat → Option Nat
  | [] => none
  | e :: l => if ino < e then none else if e = ino then some e else (cpioIlistElmUpto ino l).or (some e)

def cpioIlistInsert (ino : Nat) : List Nat → List Nat
  | [] => [ino]
  | e :: l => if ino < e then ino :: e :: l else e :: cpioIlistInsert ino l

/-- What the allocators and the file system answer, for the section of each header. `mkdir`, `symlink` and `create`
stand for all attempts, with the removal of what is in the way. `write` is the number of bytes that
`uk_syscall_do_write` has written of those at an address, if it is not an error; it writes some of them and no more,
since otherwise `write_file` does not end. -/
structure Env where
  region : Bool
  bump : Header → Bool
  link : Header → Bool
  mkdir : Header → Bool
  symlink : Header → Bool
  create : Header → Bool
  write : Header → Nat → Nat → Option Nat
  close : Header → Bool
  written : ∀ h a n k, 0 < n → write h a n = some k → 0 < k ∧ k ≤ n

def Env.ok : Env where
  region := true
  bump _ := true
  link _ := true
  mkdir _ := true
  symlink _ := true
  create _ := true
  write _ _ n := some n
  close _ := true
  written _ _ _ _ hn hk := by cases hk; exact ⟨hn, Nat.le_refl _⟩

/-- What a section has done. It is `made` if an entry is created for it, or the file system is asked to. -/
structure Section where
  touched : List Access
  made : Bool
  error : UkcpioError
  header : Header
  ilist : List Nat

section
variable (env : Env) (eof prefixlen : Nat) (h : Header) (ilist : List Nat)

def fields : List Access := [14, 54, 94, 46, 38].map fun off => .bytes (h.addr + off) 8

/-- What is read of an accepted section: the name for the path and, if there are several links, once more to compare
it. -/
def readEntry : List Access :=
  fields h ++ [.bytes h.filename h.namesize] ++ if 1 < h.nlink then [.bytes h.filename h.cmpDot.2] else []

/-- The bytes passed on, and whether all of them could be written. -/
def writeFile (contents len : Nat) : List Access × Bool :=
  if hlen : len = 0 then ([], true)
  else
    match hw : env.write h contents len with
    | none => ([.bytes contents len], false)
    | some written =>
      have := env.written h contents len written (Nat.pos_of_ne_zero hlen) hw
      let rest := writeFile (contents + written) (len - written)
      (.bytes contents len :: rest.1, rest.2)
termination_by len

def extractFile : List Access × UkcpioError :=
  if env.create h = false then ([], .fileCreateFailed)
  else
    let file := writeFile env h h.data h.filesize
    (file.1, if file.2 = false then .fileWriteFailed else if env.close h then .success else .fileCloseFailed)

def extractEntry (read : List Access) : Section :=
  if isFileOfType h.mode 0o40000 then
    ⟨read, true, if env.mkdir h then .success else .mkdirFailed, h.next, ilist⟩
  else if isFileOfType h.mode 0o100000 then
    ⟨read ++ (extractFile env h).1, true, (extractFile env h).2, h.next, ilist⟩
  else if isFileOfType h.mode 0o120000 then
    ⟨read ++ [.bytes h.data h.filesize], true, if env.symlink h then .success else .symlinkFailed, h.next, ilist⟩
  else ⟨read, false, .success, h.next, ilist⟩

def extractSection : Section :=
  if eof < h.filename + h.namesize then ⟨fields h, false, .malformedInput, h, ilist⟩
  -- both messages print the name
  else if eof < h.data + h.filesize ∨ PATH_MAX < prefixlen + h.namesize then
    ⟨fields h ++ [.str h.filename], false, .malformedInput, h, ilist⟩
  else
    let read := readEntry h
    if 1 < h.nlink ∧ h.cmpDot.1 = false then
      let read := read ++ [.bytes (h.addr + 6) 8]
      if cpioIlistElmUpto h.inodeNum ilist = some h.inodeNum then
        if env.link h then ⟨read, true, .success, h.next, ilist⟩ else ⟨read, true, .linkFailed, h, ilist⟩
      else if env.bump h then extractEntry env h (cpioIlistInsert h.inodeNum ilist) read
      else ⟨read, false, .nomem, h, ilist⟩
    else extractEntry env h ilist read

def readHead : List Access := [.bytes h.addr 6, .bytes h.filename h.cmpTrailer.2]

def processSection : Section :=
  if eof ≤ h.addr ∨ eof < h.filename then ⟨[], false, .invalidHeader, h, ilist⟩
  else if h.validMagic = false then ⟨[.bytes h.addr 6], false, .invalidHeader, h, ilist⟩
  else if h.islast then ⟨readHead h, false, .success, ⟨h.mem, 0⟩, ilist⟩
  else
    let st := extractSection env eof prefixlen h ilist
    { st with touched := readHead h ++ st.touched }

end

/-- The bytes touched, the headers of the sections that gave no error, those for which an entry is created, and the
result. -/
structure Out where
  touched : List Access
  accepted : List Header
  created : List Header
  error : UkcpioError

def Out.append (o o' : Out) : Out :=
  ⟨o.touched ++ o'.touched, o.accepted ++ o'.accepted, o.created ++ o'.created, o'.error⟩

def Section.out (st : Section) (h : Header) : Out :=
  ⟨st.touched, if st.error = .success then [h] else [], if st.made then [h] else [], st.error⟩

def Out.of (e : UkcpioError) : Out := ⟨[], [], [], e⟩

/-- The loop of `ukcpio_extract`, for `fuel` sections. The address 0 is `NULL`. -/
def walk (env : Env) (buflen prefixlen : Nat) : Nat → Header → List Nat → Option Out
  | 0, _, _ => none
  | fuel + 1, h, ilist =>
    if h.addr = 0 then some (.of .success)
    else
      let st := processSection env (h.addr + buflen) prefixlen h ilist
      if st.error = .success then (walk env buflen prefixlen fuel st.header st.ilist).map (st.out h).append
      else some (st.out h)

/-- The length of the path that is put in front of the names. For an empty `dest` the source tests a byte in front of
its buffer, which is taken not to be a slash. -/
def pathLen (dest : List Char) : Nat := if dest.getLast? = some '/' then dest.length else dest.length + 1

def ukcpioExtract (env : Env) (mem : Mem) (dest : Option (List Char)) (buf buflen fuel : Nat) : Option Out :=
  match dest with
  | none => some (.of .nodest)
  | some dest =>
    if PATH_MAX - 1 < dest.length then some (.of .nodest)
    else if env.region = false then some (.of .nomem)
    else walk env buflen (pathLen dest) fuel ⟨mem, buf⟩ []

/-- The name has its NUL among the bytes that are its size. -/
def Header.Terminated (h : Header) : Prop := ∃ i < h.namesize, h.mem (h.filename + i) = 0

/-- The header ends before `hi`, and so do its name with the NUL and its data unless it is the last one. -/
structure Fits (hi : Nat) (h : Header) : Prop where
  header : h.filename ≤ hi
  terminated : h.islast = false → h.Terminated
  name : h.islast = false → h.filename + h.namesize ≤ hi
  data : h.islast = false → h.data + h.filesize ≤ hi

/-- Nothing outside is touched, and a section that crosses the end gives an error and no entry is created for it. -/
structure Out.Contained (mem : Mem) (lo hi : Nat) (o : Out) : Prop where
  touched : ∀ a ∈ o.touched, a.Inside mem lo hi
  created : ∀ h ∈ o.created, Fits hi h
  accepted : ∀ h ∈ o.accepted, Fits hi h

/-- The magic number is right and the part of the name that is compared with that of the trailer ends before `hi`. -/
def Named (hi : Nat) (h : Header) : Prop := h.validMagic = true ∧ h.filename + h.cmpTrailer.2 ≤ hi

/-- The sizes are too large for an archive of `buflen` bytes behind the header, or the path is too long. Unless it is
the size of the name, the name is printed. -/
def TooLong (buflen prefixlen hi : Nat) (h : Header) : Prop :=
  h.addr + buflen < h.filename + h.namesize ∨
    (h.addr + buflen < h.data + h.filesize ∨ PATH_MAX < prefixlen + h.namesize) ∧
      (Access.str h.filename).Inside h.mem 0 hi

/-- From a header on the archive consists of sections that end before `hi`, up to a trailer or a header that is
rejected. -/
inductive Archive (buflen prefixlen hi : Nat) : Header → Prop
  | badMagic {h : Header} (hmagic : h.validMagic = false) (hin : h.addr + 6 ≤ hi) : Archive buflen prefixlen hi h
  | trailer {h : Header} (hnamed : Named hi h) (hlast : h.islast = true) : Archive buflen prefixlen hi h
  | tooLong {h : Header} (hnamed : Named hi h) (hlast : h.islast = false) (hlong : TooLong buflen prefixlen hi h) :
      Archive buflen prefixlen hi h
  | entry {h : Header} (hnamed : Named hi h) (hlast : h.islast = false) (hfits : Fits hi h)
      (hpath : prefixlen + h.namesize ≤ PATH_MAX) (hdot : 1 < h.nlink → h.filename + h.cmpDot.2 ≤ hi)
      (hnext : Archive buflen prefixlen hi h.next) : Archive buflen prefixlen hi h

section
variable {env : Env} {mem : Mem} {lo hi eof prefixlen buflen fuel a n : Nat} {h : Header} {ilist : List Nat}
    {out : Out}
  {d : List Char} {buf : Nat}

private theorem inside_bytes (hlo : lo ≤ a) (hhi : a + n ≤ hi) : (Access.bytes a n).Inside mem lo hi :=
  fun i hi => ⟨by omega, by omega⟩

private theorem le_of_inside (h : (Access.bytes a n).Inside mem lo hi) (hn : 0 < n) : a + n ≤ hi := by
  have := (h (n - 1) (by omega)).2
  omega

private theorem strcmp_pos {c : BitVec 8} {s : List (BitVec 8)} : 0 < (strcmp mem a (c :: s)).2 := by
  unfold strcmp
  split
  · exact Nat.succ_pos _
  · exact Nat.one_pos

private theorem Header.parts (h : Header) : h.filename = h.addr + 110 ∧ h.filename + h.namesize ≤ h.data ∧
    h.data + h.filesize ≤ h.next.addr := by
  refine ⟨rfl, ?_, ?_⟩
  · unfold data alignUp
    omega
  · unfold next alignUp
    dsimp only
    omega

private theorem Archive.le (h' : Archive buflen prefixlen hi h) : h.addr + 6 ≤ hi := by
  have := h.parts
  cases h' with
  | badMagic _ hin => exact hin
  | trailer hnamed | tooLong hnamed | entry hnamed =>
    have := hnamed.2
    omega

private theorem Archive.next (h' : Archive buflen prefixlen hi h) (hmagic : h.validMagic = true)
    (hlast : h.islast = false) (hlong : ¬TooLong buflen prefixlen hi h) : Archive buflen prefixlen hi h.next := by
  cases h' with
  | badMagic hm => exact absurd (hm.symm.trans hmagic) Bool.false_ne_true
  | trailer _ hl => exact absurd (hlast.symm.trans hl) Bool.false_ne_true
  | tooLong _ _ hl => exact absurd hl hlong
  | entry _ _ _ _ _ hnext => exact hnext

private theorem inside_fields (hlo : lo ≤ h.addr) (hhi : h.filename ≤ hi) : ∀ x ∈ fields h, x.Inside mem lo hi := by
  unfold Header.filename at hhi
  intro x hx
  simp only [fields, map_cons, map_nil, mem_cons, not_mem_nil, or_false] at hx
  rcases hx with rfl | rfl | rfl | rfl | rfl <;> exact inside_bytes (by omega) (by omega)

/-- Some of the data of a section. -/
def IsData (h : Header) (a : Access) : Prop := ∃ k n, a = .bytes (h.data + k) n ∧ k + n ≤ h.filesize

/-- Whatever the file system writes at a time, the bytes passed on are some of the contents. -/
private theorem writeFile_touched (contents len : Nat) :
    ∀ a ∈ (writeFile env h contents len).1, ∃ k n, a = .bytes (contents + k) n ∧ k + n ≤ len := by
  intro a ha
  fun_induction writeFile env h contents len with
  | case1 => cases ha
  | case2 contents len =>
    exact ⟨0, len, mem_singleton.1 ha, by omega⟩
  | case3 contents len hlen written hw hk rest ih =>
    rcases mem_cons.1 ha with rfl | ha
    · exact ⟨0, len, rfl, by omega⟩
    · obtain ⟨k, n, rfl, hle⟩ := ih ha
      exact ⟨written + k, n, by rw [Nat.add_assoc], by omega⟩

private theorem writeFile_ok (contents len : Nat) : (writeFile .ok h contents len).2 = true := by
  fun_induction writeFile .ok h contents len with
  | case1 => rfl
  | case2 contents len hlen hw => cases hw
  | case3 contents len hlen written hw hk rest ih => exact ih

private theorem extractFile_touched : ∀ a ∈ (extractFile env h).1, IsData h a := by
  unfold extractFile
  split
  · exact nofun
  · exact writeFile_touched h.data h.filesize

private theorem extractFile_ok : (extractFile .ok h).2 = .success := by
  unfold extractFile
  rw [if_neg (by simp [Env.ok])]
  dsimp only
  rw [writeFile_ok]
  rfl

/-- Behind what an accepted section reads in any case, it reads at most its inode number and its data. -/
structure Accepted (env : Env) (h : Header) (st : Section) : Prop where
  touched : ∃ rest, st.touched = readEntry h ++ rest ∧ ∀ a ∈ rest, a = .bytes (h.addr + 6) 8 ∨ IsData h a
  next : st.error = .success → st.header = h.next
  ok : env = .ok → st.error = .success

private theorem extractEntry_accepted (ilist : List Nat) {rest : List Access}
    (hrest : ∀ a ∈ rest, a = .bytes (h.addr + 6) 8) :
    Accepted env h (extractEntry env h ilist (readEntry h ++ rest)) := by
  have hrest' : ∀ a ∈ rest, a = .bytes (h.addr + 6) 8 ∨ IsData h a := fun a ha => .inl (hrest a ha)
  have hmore : ∀ more : List Access, (∀ a ∈ more, IsData h a) →
      ∃ rest', readEntry h ++ rest ++ more = readEntry h ++ rest' ∧
        ∀ a ∈ rest', a = .bytes (h.addr + 6) 8 ∨ IsData h a :=
    fun more hm => ⟨rest ++ more, append_assoc .., forall_mem_append.2 ⟨hrest', fun a ha => .inr (hm a ha)⟩⟩
  unfold extractEntry
  split
  · exact ⟨⟨rest, rfl, hrest'⟩, fun _ => rfl, fun he => he ▸ rfl⟩
  split
  · exact ⟨hmore _ extractFile_touched, fun _ => rfl, fun he => he ▸ extractFile_ok⟩
  split
  · refine ⟨hmore _ (forall_mem_singleton.2 ⟨0, h.filesize, rfl, ?_⟩), fun _ => rfl, fun he => he ▸ rfl⟩
    omega
  · exact ⟨⟨rest, rfl, hrest'⟩, fun _ => rfl, fun _ => rfl⟩

private theorem extractSection_accepted (env : Env) (ilist : List Nat) (hname : h.filename + h.namesize ≤ eof)
    (hdata : ¬(eof < h.data + h.filesize ∨ PATH_MAX < prefixlen + h.namesize)) :
    Accepted env h (extractSection env eof prefixlen h ilist) := by
  have hnum : ∀ a ∈ [Access.bytes (h.addr + 6) 8], a = .bytes (h.addr + 6) 8 := forall_mem_singleton.2 rfl
  unfold extractSection
  rw [if_neg (by omega), if_neg hdata]
  split
  · split
    · split
      · exact ⟨⟨_, rfl, fun a ha => .inl (hnum a ha)⟩, fun _ => rfl, fun _ => rfl⟩
      case isFalse hlink => exact ⟨⟨_, rfl, fun a ha => .inl (hnum a ha)⟩, nofun, fun he => absurd (he ▸ rfl) hlink⟩
    · split
      · exact extractEntry_accepted _ hnum
      case isFalse hbump => exact ⟨⟨_, rfl, fun a ha => .inl (hnum a ha)⟩, nofun, fun he => absurd (he ▸ rfl) hbump⟩
  · rw [← append_nil (readEntry h)]
    exact extractEntry_accepted ilist nofun

private theorem extractSection_tooLong (env : Env) (ilist : List Nat) (hlo : lo ≤ h.addr) (hhead : h.filename ≤ hi)
    (hlong : TooLong buflen prefixlen hi h) :
    let st := extractSection env (h.addr + buflen) prefixlen h ilist
    (∀ a ∈ st.touched, a.Inside h.mem lo hi) ∧ st.made = false ∧ st.error = .malformedInput := by
  have hfields : ∀ a ∈ fields h, a.Inside h.mem lo hi := inside_fields hlo hhead
  unfold extractSection
  split
  · exact ⟨hfields, rfl, rfl⟩
  case isFalse hname =>
    obtain ⟨hdata, -, hnul⟩ := hlong.resolve_left hname
    rw [if_pos hdata]
    refine ⟨forall_mem_append.2 ⟨hfields, forall_mem_singleton.2 ⟨?_, hnul⟩⟩, rfl, rfl⟩
    exact Nat.le_trans hlo (Nat.le_add_right ..)

private theorem inside_readEntry (hlo : lo ≤ h.addr) (hname : h.filename + h.namesize ≤ hi)
    (hdot : 1 < h.nlink → h.filename + h.cmpDot.2 ≤ hi) : ∀ a ∈ readEntry h, a.Inside mem lo hi := by
  have hfile : lo ≤ h.filename := Nat.le_trans hlo (Nat.le_add_right ..)
  refine forall_mem_append.2 ⟨forall_mem_append.2 ⟨inside_fields hlo (by omega), ?_⟩, ?_⟩
  · exact forall_mem_singleton.2 (inside_bytes hfile hname)
  · split
    case isTrue hlink => exact forall_mem_singleton.2 (inside_bytes hfile (hdot hlink))
    case isFalse => exact nofun

private theorem Named.inside (hnamed : Named hi h) (hlo : lo ≤ h.addr) : ∀ a ∈ readHead h, a.Inside mem lo hi := by
  have := hnamed.2
  have := h.parts
  refine forall_mem_cons.2 ⟨?_, forall_mem_singleton.2 ?_⟩
  · exact inside_bytes hlo (by omega)
  · exact inside_bytes (by omega) hnamed.2

private theorem processSection_eq (hbuf : 110 ≤ buflen) : processSection env (h.addr + buflen) prefixlen h ilist =
    if h.validMagic = false then ⟨[.bytes h.addr 6], false, .invalidHeader, h, ilist⟩
    else if h.islast then ⟨readHead h, false, .success, ⟨h.mem, 0⟩, ilist⟩ else
      let st := extractSection env (h.addr + buflen) prefixlen h ilist
      { st with touched := readHead h ++ st.touched } := by
  unfold processSection
  rw [if_neg]
  have := h.parts
  omega

private theorem walk_step {st : Section} (h0 : h.addr ≠ 0)
    (hst : processSection env (h.addr + buflen) prefixlen h ilist = st)
    (htouched : ∀ a ∈ st.touched, a.Inside mem lo hi) (hmade : st.made = true → Fits hi h)
    (hnext : st.error = .success → Fits hi h ∧
      ∃ fuel out, walk env buflen prefixlen fuel st.header st.ilist = some out ∧ out.Contained mem lo hi) :
    ∃ fuel out, walk env buflen prefixlen fuel h ilist = some out ∧ out.Contained mem lo hi := by
  have hcreated : ∀ h' ∈ (st.out h).created, Fits hi h' := by
    intro h' hh
    change h' ∈ if st.made then [h] else [] at hh
    split at hh
    case isTrue hm => exact mem_singleton.1 hh ▸ hmade hm
    case isFalse => cases hh
  have haccepted : ∀ h' ∈ (st.out h).accepted, Fits hi h' := by
    intro h' hh
    change h' ∈ if st.error = .success then [h] else [] at hh
    split at hh
    case isTrue he => exact mem_singleton.1 hh ▸ (hnext he).1
    case isFalse => cases hh
  by_cases herr : st.error = .success
  · obtain ⟨-, fuel, out, hwalk, hout⟩ := hnext herr
    refine ⟨fuel + 1, (st.out h).append out, ?_, forall_mem_append.2 ⟨htouched, hout.touched⟩,
      forall_mem_append.2 ⟨hcreated, hout.created⟩, forall_mem_append.2 ⟨haccepted, hout.accepted⟩⟩
    simp only [walk, if_neg h0, hst, if_pos herr, hwalk, Option.map_some]
  · refine ⟨1, st.out h, ?_, htouched, hcreated, haccepted⟩
    simp only [walk, if_neg h0, hst, if_neg herr]

private theorem Out.contained_of (e : UkcpioError) : (Out.of e).Contained mem lo hi := ⟨nofun, nofun, nofun⟩

private theorem walk_of_archive (hbuf : 110 ≤ buflen) (hhi : hi = lo + buflen)
    (harchive : Archive buflen prefixlen hi h) (hlo : lo ≤ h.addr) (h0 : h.addr ≠ 0) (ilist : List Nat) :
    ∃ fuel out, walk env buflen prefixlen fuel h ilist = some out ∧ out.Contained h.mem lo hi := by
  induction harchive generalizing ilist with
  | badMagic hm hin =>
    refine walk_step h0 ((processSection_eq hbuf).trans (if_pos hm)) ?_ nofun nofun
    exact forall_mem_singleton.2 (inside_bytes hlo hin)
  | @trailer h hnamed hlast =>
    refine walk_step h0 ((processSection_eq hbuf).trans ((if_neg (by simp [hnamed.1])).trans (if_pos hlast)))
      (hnamed.inside hlo) nofun fun _ => ⟨?_, 1, _, rfl, Out.contained_of _⟩
    have hnot : h.islast ≠ false := by simp [hlast]
    exact ⟨Nat.le_trans (Nat.le_add_right ..) hnamed.2, fun hl => absurd hl hnot, fun hl => absurd hl hnot,
      fun hl => absurd hl hnot⟩
  | tooLong hnamed hlast hlong =>
    obtain ⟨htouched, hmade, herr⟩ :=
      extractSection_tooLong env ilist hlo (Nat.le_trans (Nat.le_add_right ..) hnamed.2) hlong
    refine walk_step h0 ((processSection_eq hbuf).trans
        ((if_neg (by simp [hnamed.1])).trans (if_neg (by simp [hlast]))))
      (forall_mem_append.2 ⟨hnamed.inside hlo, htouched⟩) (fun hm => ?_) fun he => ?_
    · exact absurd (hmade.symm.trans hm) Bool.false_ne_true
    · cases herr.symm.trans he
  | @entry h hnamed hlast hfits hpath hdot hnext ih =>
    have hname := hfits.name hlast
    have hdata := hfits.data hlast
    have hparts := h.parts
    have hdata' : ¬(h.addr + buflen < h.data + h.filesize ∨ PATH_MAX < prefixlen + h.namesize) := by omega
    obtain ⟨⟨rest, ht, hrest⟩, herr, -⟩ := extractSection_accepted env ilist (by omega) hdata'
    refine walk_step h0 ((processSection_eq hbuf).trans
        ((if_neg (by simp [hnamed.1])).trans (if_neg (by simp [hlast])))) ?_
      (fun _ => hfits) fun he => ⟨hfits, ?_⟩
    · dsimp only
      rw [ht]
      refine forall_mem_append.2 ⟨hnamed.inside hlo,
          forall_mem_append.2 ⟨inside_readEntry hlo hname hdot, fun a ha => ?_⟩⟩
      rcases hrest a ha with rfl | ⟨k, n, rfl, hle⟩
      · exact inside_bytes (by omega) (by omega)
      · exact inside_bytes (by omega) (by omega)
    · rw [herr he]
      exact ih (by omega) (by omega) _

private theorem walk_succ (hwalk : walk env buflen prefixlen (fuel + 1) h ilist = some out) (h0 : h.addr ≠ 0)
    (hc : out.Contained mem lo hi) :
    let st := processSection env (h.addr + buflen) prefixlen h ilist
    (∀ a ∈ st.touched, a.Inside mem lo hi) ∧ (st.error = .success → Fits hi h ∧
      ∃ out, walk env buflen prefixlen fuel st.header st.ilist = some out ∧ out.Contained mem lo hi) := by
  simp only [walk, if_neg h0] at hwalk
  split at hwalk
  case isTrue herr =>
    obtain ⟨o, ho, rfl⟩ := Option.map_eq_some_iff.1 hwalk
    obtain ⟨ht, ht'⟩ := forall_mem_append.1 hc.touched
    obtain ⟨hfits, haccepted⟩ := forall_mem_append.1 hc.accepted
    refine ⟨ht, fun _ => ⟨hfits h ?_, o, ho, ht', (forall_mem_append.1 hc.created).2, haccepted⟩⟩
    simp [Section.out, herr]
  case isFalse herr =>
    cases hwalk
    exact ⟨hc.touched, fun he => absurd he herr⟩

private theorem archive_of_walk (hbuf : 110 ≤ buflen) (hwalk : walk .ok buflen prefixlen fuel h ilist = some out)
    (hc : out.Contained h.mem lo hi) (h0 : h.addr ≠ 0) : Archive buflen prefixlen hi h := by
  induction fuel generalizing h ilist out with
  | zero => cases hwalk
  | succ fuel ih =>
    obtain ⟨ht, hnext⟩ := walk_succ hwalk h0 hc
    rw [processSection_eq hbuf] at ht hnext
    by_cases hm : h.validMagic = false
    · rw [if_pos hm] at ht
      exact .badMagic hm (le_of_inside (ht _ (mem_singleton.2 rfl)) (by decide))
    rw [if_neg hm] at ht hnext
    have hcmp : .bytes h.filename h.cmpTrailer.2 ∈ readHead h := by simp [readHead]
    by_cases hlast : h.islast = true
    · rw [if_pos hlast] at ht
      exact .trailer ⟨eq_true_of_ne_false hm, le_of_inside (ht _ hcmp) strcmp_pos⟩ hlast
    rw [if_neg hlast] at ht hnext
    obtain ⟨ht, ht'⟩ := forall_mem_append.1 ht
    have hnamed : Named hi h := ⟨eq_true_of_ne_false hm, le_of_inside (ht _ hcmp) strcmp_pos⟩
    have hlast' := eq_false_of_ne_true hlast
    by_cases hname : h.addr + buflen < h.filename + h.namesize
    · exact .tooLong hnamed hlast' (.inl hname)
    by_cases hdata : h.addr + buflen < h.data + h.filesize ∨ PATH_MAX < prefixlen + h.namesize
    · refine .tooLong hnamed hlast' (.inr ⟨hdata, Nat.zero_le _, (ht' (.str h.filename) ?_).2⟩)
      simp [extractSection, if_neg hname, if_pos hdata]
    obtain ⟨⟨rest, htouched, -⟩, herr, hok⟩ := extractSection_accepted .ok ilist (Nat.le_of_not_lt hname) hdata
    obtain ⟨hfits, o, ho, hc'⟩ := hnext (hok rfl)
    have hparts := h.parts
    have harchive := ih (h := h.next) (herr (hok rfl) ▸ ho) hc' (by omega)
    refine .entry hnamed hlast' hfits (by omega) (fun hlink => ?_) harchive
    refine le_of_inside (ht' _ ?_) strcmp_pos
    rw [htouched]
    simp [readEntry, hlink]

private theorem ukcpioExtract_eq (hd : d.length < PATH_MAX) (hr : env.region = true) :
    ukcpioExtract env mem (some d) buf buflen fuel = walk env buflen (pathLen d) fuel ⟨mem, buf⟩ [] := by
  unfold ukcpioExtract
  dsimp only
  rw [if_neg (by omega), if_neg (by simp [hr])]

private theorem archive_of_contained (hd : d.length < PATH_MAX) (h0 : buf ≠ 0) (hbuf : 110 ≤ buflen)
    (h : ∃ fuel out, ukcpioExtract .ok mem (some d) buf buflen fuel = some out ∧ out.Contained mem lo hi) :
    Archive buflen (pathLen d) hi ⟨mem, buf⟩ := by
  obtain ⟨fuel, out, hout, hc⟩ := h
  rw [ukcpioExtract_eq hd rfl] at hout
  exact archive_of_walk hbuf hout hc h0

end

/-- Whatever the allocators and the file system answer, extraction ends and stays inside exactly if there is no
destination, the buffer is shorter than a header, or it holds such an archive. -/
theorem ukcpioExtract_contained_iff (mem : Mem) (dest : Option (List Char)) (buf buflen : Nat) :
    (∀ env, ∃ fuel out, ukcpioExtract env mem dest buf buflen fuel = some out ∧
      out.Contained mem buf (buf + buflen)) ↔
      ∀ d, dest = some d → d.length < PATH_MAX → buf ≠ 0 → 110 ≤ buflen →
        Archive buflen (pathLen d) (buf + buflen) ⟨mem, buf⟩ := by
  constructor
  · rintro h d rfl hd h0 hbuf
    exact archive_of_contained hd h0 hbuf (h .ok)
  · intro h env
    cases dest with
    | none => exact ⟨0, _, rfl, Out.contained_of _⟩
    | some d =>
      by_cases hd : d.length < PATH_MAX
      case neg => exact ⟨0, _, if_pos (by unfold PATH_MAX at *; omega), Out.contained_of _⟩
      cases hr : env.region with
      | false =>
        refine ⟨0, .of .nomem, ?_, Out.contained_of _⟩
        simp only [ukcpioExtract, hr]
        exact if_neg (by unfold PATH_MAX at *; omega)
      | true =>
        simp only [ukcpioExtract_eq hd hr]
        by_cases h0 : buf = 0
        · exact ⟨1, _, if_pos h0, Out.contained_of _⟩
        by_cases hbuf : 110 ≤ buflen
        · exact walk_of_archive hbuf rfl (h d rfl hd h0 hbuf) (Nat.le_refl _) h0 []
        · refine walk_step h0 (if_pos ?_) nofun nofun nofun
          unfold Header.filename
          omega

def cut : Mem := fun a =>
  (chars (['0', '7', '0', '7', '0', '1'] ++ replicate 95 '0' ++ '2' :: replicate 8 '0' ++ ['a', '\x00'])).getD
    (a - 4096) 0

/-- An archive that ends behind its first section: the next header is read behind the buffer. -/
theorem not_ukcpioExtract_contained : ¬∀ (mem : Mem) (dest : Option (List Char)) (buf buflen : Nat) (env : Env),
    ∃ fuel out, ukcpioExtract env mem dest buf buflen fuel = some out ∧ out.Contained mem buf (buf + buflen) := by
  intro h
  have harchive := archive_of_contained (by decide) (by decide) (by decide) (h cut (some ['/']) 4096 112 .ok)
  refine absurd (harchive.next (by decide) (by decide) ?_).le (by decide)
  rintro (hname | ⟨hdata, -⟩)
  · revert hname
    decide
  · revert hdata
    decide

end Unikraft.Cpio
