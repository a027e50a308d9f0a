import Unikraft.Lib.Lists

/-!
# Which parameter a command line token addresses

`find_libparam` compares the library prefix of a parameter with the token only up to the length of the token's prefix.
So a token also addresses the parameters of libraries whose prefix is longer, and which one depends on the order of
registration.
-/

namespace Unikraft.Libparam

open List Option

structure Param where
  libPrefix : List Char
  name : List Char
  deriving DecidableEq

inductive State
  | PARAM
  | LIST
  deriving DecidableEq

structure Ctx where
  hitStop : Bool
  hitUsage : Bool
  state : State
  p : Option Param
  deriving DecidableEq

/-- What `parse_arg` returns: a number, or what `parse_value` returns for the parameter, the only one it may write
to. -/
inductive Ret
  | ret (n : Int)
  | parseValue (p : Param) (value : Option (List Char))
  deriving DecidableEq

def EINVAL : Int := 22
def ENOENT : Int := 2

/-- `strncmp(a, b, n) == 0` for strings without their NUL. -/
def strncmp : List Char → List Char → Nat → Bool
  | _, _, 0 => true
  | [], [], _ + 1 => true
  | a :: as, b :: bs, n + 1 => a == b && strncmp as bs n
  | _, _, _ + 1 => false

def findLibparam (params : List Param) (libname : List Char) (libnameLen : Nat) (paramname : List Char)
    (paramnameLen : Nat) :
    Option Param :=
  params.find? fun p => strncmp p.libPrefix libname libnameLen &&
    (strncmp p.name paramname paramnameLen && p.name.length == paramnameLen)

/-- The end of both branches: `parse_value` is called if a parameter is set. -/
def parseCall (ctx : Ctx) (value : Option (List Char)) (scanOnly : Bool) (ret : Int) : Ret :=
  match ctx.p, scanOnly with
  | some p, false => .parseValue p value
  | _, _ => .ret ret

def parseList (ctx : Ctx) (value : List Char) (scanOnly : Bool) (ret : Int) : Ctx × Ret :=
  if value.getLast? = some ']' then
    let ctx := { ctx with state := .PARAM }
    if value.length = 1 then (ctx, .ret ret) else (ctx, parseCall ctx (some value.dropLast) scanOnly ret)
  else (ctx, parseCall ctx (some value) scanOnly ret)

/-- `parse_arg` after the search for the parameter. -/
def parseAssign (ctx : Ctx) (value : Option (List Char)) (scanOnly : Bool) (ret : Int) : Ctx × Ret :=
  match value with
  | some ('[' :: value) =>
    let ctx := { ctx with state := .LIST }
    if value = [] then (ctx, .ret ret) else parseList ctx value scanOnly ret
  | _ => (ctx, parseCall ctx value scanOnly ret)

def parseArg (params : List Param) (ctx : Ctx) (strbuf : List Char) (scanOnly : Bool) : Ctx × Ret :=
  if strbuf = [] then (ctx, .ret 0)
  else match ctx.state with
    | .LIST => parseList ctx strbuf scanOnly 0
    | .PARAM =>
      if strbuf = ['-', '-'] then ({ ctx with hitStop := true }, .ret 0)
      else if strbuf = ['h', 'e', 'l', 'p'] then ({ ctx with hitUsage := true }, .ret 0)
      else match strbuf.idxOf? '.' with
        | none => (ctx, .ret (-EINVAL))
        | some libnameLen =>
          let paramname := strbuf.drop (libnameLen + 1)
          let eq := paramname.idxOf? '='
          let value := eq.map fun i => paramname.drop (i + 1)
          if scanOnly then parseAssign ctx value scanOnly 0
          else
            let p := findLibparam params strbuf libnameLen paramname (eq.getD paramname.length)
            parseAssign { ctx with p := p } value scanOnly (if p = none then -ENOENT else 0)

def token (P N : List Char) (V : Option (List Char)) : List Char := P ++ '.' :: (N ++ V.elim [] ('=' :: ·))

/-- In every order of registration, a token has the same outcome, it addresses no parameter but the one it names, and
`ENOENT` is returned if there is none. -/
def Exact (params : List Param) (ctx : Ctx) (P N : List Char) (V : Option (List Char)) : Prop :=
  ∀ ps, ps.Perm params →
    let r := parseArg ps ctx (token P N V) false
    (∀ p v, r.2 = .parseValue p v → p = ⟨P, N⟩) ∧ (⟨P, N⟩ ∉ params → r.2 = .ret (-ENOENT)) ∧
      r = parseArg params ctx (token P N V) false

/-- The comparison of the first `n` characters. -/
theorem strncmp_iff (a b : List Char) (n : Nat) : strncmp a b n = true ↔ a.take n = b.take n := by
  induction n generalizing a b with
  | zero => simp [strncmp]
  | succ n ih => cases a <;> cases b <;> simp [strncmp, ih]

def Param.answers (P N : List Char) (p : Param) : Bool := P.isPrefixOf p.libPrefix && p.name == N

/-- A parameter answers to every beginning of its library's prefix. -/
theorem Param.answers_iff {P N : List Char} {p : Param} : p.answers P N = true ↔ P <+: p.libPrefix ∧ p.name = N := by
  simp [answers]

private theorem findLibparam_eq (ps : List Param) (P N rest rest' : List Char) :
    findLibparam ps (P ++ rest) P.length (N ++ rest') N.length = ps.find? (·.answers P N) := by
  unfold findLibparam
  congr 1
  funext p
  rw [Bool.eq_iff_iff]
  simp only [Bool.and_eq_true, strncmp_iff, take_left, beq_iff_eq, Param.answers_iff, prefix_iff_eq_take]
  refine and_congr eq_comm ⟨fun h => ?_, ?_⟩
  · rw [← h.1, take_of_length_le (Nat.le_of_eq h.2)]
  · rintro rfl
    simp

private theorem parseArg_token {ctx : Ctx} (hctx : ctx.state = .PARAM) {P N : List Char} (hP : '.' ∉ P) (hN : '=' ∉ N)
    (V : Option (List Char)) (ps : List Param) :
    let p := ps.find? (·.answers P N)
    parseArg ps ctx (token P N V) false =
      parseAssign { ctx with p := p } V false (if p = none then -ENOENT else 0) := by
  have hdot : '.' ∈ token P N V := by simp [token]
  have hne : ∀ l : List Char, '.' ∉ l → token P N V ≠ l := fun l hl h => hl (h ▸ hdot)
  rw [parseArg, if_neg (hne _ (by decide)), hctx]
  dsimp only
  rw [if_neg (hne _ (by decide)), if_neg (hne _ (by decide)), token, Lists.idxOf?_append_cons hP]
  dsimp only
  rw [Lists.drop_append_cons, if_neg Bool.false_ne_true]
  cases V with
  | none =>
    have hnone : N.idxOf? '=' = none := by simpa [idxOf?_eq_none_iff] using hN
    have hfind := findLibparam_eq ps P N ('.' :: N) []
    rw [append_nil] at hfind
    simp only [elim_none, append_nil, hnone, getD_none, map_none, hfind]
  | some v =>
    simp only [elim_some, Lists.idxOf?_append_cons hN, getD_some, map_some, Lists.drop_append_cons, findLibparam_eq]

/-- `parse_value` is only called for the parameter of the context, which does not change. -/
theorem parseAssign_cases (ctx : Ctx) (V : Option (List Char)) (ret : Int) :
    (parseAssign ctx V false ret).1.p = ctx.p ∧ ((parseAssign ctx V false ret).2 = .ret ret ∨
      ∃ p v, ctx.p = some p ∧ (parseAssign ctx V false ret).2 = .parseValue p v) := by
  have hcall : ∀ v, parseCall ctx v false ret = .ret ret ∨
      ∃ p v', ctx.p = some p ∧ parseCall ctx v false ret = .parseValue p v' := by
    intro v
    unfold parseCall
    cases ctx.p <;> simp
  unfold parseAssign
  split
  · unfold parseList
    split
    · exact ⟨rfl, .inl rfl⟩
    · split
      · dsimp only
        split
        · exact ⟨rfl, .inl rfl⟩
        · exact ⟨rfl, hcall _⟩
      · exact ⟨rfl, hcall _⟩
  · exact ⟨rfl, hcall _⟩

private theorem find?_matches {params ps : List Param} (hperm : ps.Perm params) {P N : List Char}
    (hall : ∀ p ∈ params, p.name = N → P <+: p.libPrefix → p.libPrefix = P) :
    ps.find? (·.answers P N) = if ⟨P, N⟩ ∈ params then some ⟨P, N⟩ else none := by
  cases h : ps.find? (·.answers P N) with
  | none =>
    rw [find?_eq_none] at h
    rw [if_neg fun hm => h _ (hperm.mem_iff.2 hm) (by simp [Param.answers_iff])]
  | some q =>
    have hq := hperm.mem_iff.1 (mem_of_find?_eq_some h)
    obtain ⟨hpre, rfl⟩ := Param.answers_iff.1 (find?_some h)
    rw [← hall q hq rfl hpre] at *
    rw [if_pos hq]

/-- An argument sets the parameters it names and no others exactly if `P` is no proper beginning of the prefix of one
with this name. -/
theorem parseArg_exact_iff (params : List Param) (ctx : Ctx) (hctx : ctx.state = .PARAM) (P N : List Char)
    (hP : '.' ∉ P) (hN : '=' ∉ N) (V : Option (List Char)) :
    Exact params ctx P N V ↔ ∀ p ∈ params, p.name = N → P <+: p.libPrefix → p.libPrefix = P := by
  have hr := parseArg_token hctx hP hN V
  constructor
  · intro h p hp hname hpre
    by_contra hne
    -- The parameters with `p` registered first, so that `p` is found.
    have hfirst : ∀ q ∈ params, q.answers P N = true →
        parseArg params ctx (token P N V) false = parseAssign { ctx with p := some q } V false 0 := by
      intro q hm hq
      rw [← (h _ (perm_cons_erase hm).symm).2.2, hr, find?_cons_of_pos hq]
      rfl
    have hp' := hfirst p hp (Param.answers_iff.2 ⟨hpre, hname⟩)
    by_cases hm : ⟨P, N⟩ ∈ params
    · have hpp := congrArg (·.1.p) (hp'.symm.trans (hfirst ⟨P, N⟩ hm (by simp [Param.answers_iff])))
      rw [(parseAssign_cases _ _ _).1, (parseAssign_cases _ _ _).1] at hpp
      exact hne (congrArg Param.libPrefix (some.inj hpp))
    · have hno := (h params (.refl _)).2.1 hm
      rw [hp'] at hno
      rcases (parseAssign_cases _ V 0).2 with h0 | ⟨q, v, -, h0⟩
      · rw [h0] at hno
        exact absurd hno (by decide)
      · rw [h0] at hno
        cases hno
  · intro hall ps hperm
    rw [hr, hr, find?_matches hperm hall, find?_matches (.refl _) hall]
    refine ⟨fun p v hv => ?_, fun hm => ?_, rfl⟩
    · rcases (parseAssign_cases _ V _).2 with h0 | ⟨q, v', hq, h0⟩
      · rw [h0] at hv
        cases hv
      · rw [h0] at hv
        cases hv
        dsimp only at hq
        split at hq
        · exact (some.inj hq).symm
        · cases hq
    · rw [if_neg hm]
      exact (parseAssign_cases _ V _).2.resolve_right nofun

theorem parseArg_exact_vfs : Exact [⟨['v'], ['r']⟩, ⟨['v', 'f'], ['s']⟩] ⟨false, false, .PARAM, none⟩ ['v']
    ['r'] none :=
  (parseArg_exact_iff _ _ rfl _ _ (by decide) (by decide) _).2 (by decide)

/-- The token `v.r` addresses the parameter `vf.r`. -/
theorem not_parseArg_exact : ¬ Exact [⟨['v', 'f'], ['r']⟩] ⟨false, false, .PARAM, none⟩ ['v'] ['r'] none :=
  fun h => absurd ((h _ (.refl _)).2.1 (by decide)) (by decide)

end Unikraft.Libparam
