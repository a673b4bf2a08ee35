import ActivemqCpp.Decaf.Lang
import Mathlib.Data.List.TakeWhile

/-!
# `StringTokenizer`

A scan for what stands between delimiters, here with a single delimiter that is not returned.
The state of the scan is what stands from `pos` on; nothing stands from `npos` on.

What the calls of `nextToken` return one after the other are the `tokens` of the string
(`toArray_eq`), and `countTokens` is their number.
-/

namespace ActivemqCpp.Decaf.StringTokenizer

open List

variable {delim : UInt8} {token rest : Bytes}

/-- `nextToken`: from the first character that is no delimiter up to the next one that is. It
throws exactly where `hasMoreTokens` is false. -/
def nextToken (delim : UInt8) (rest : Bytes) : Except Exn (Bytes × Bytes) :=
  match rest.dropWhile (· = delim) with
  | [] => .error .noSuchElement
  | c :: found => .ok (c :: found.takeWhile (· ≠ delim), found.dropWhile (· ≠ delim))

theorem nextToken_shorter {next : Bytes × Bytes} (h : nextToken delim rest = .ok next) :
    next.2.length < rest.length := by
  unfold nextToken at h
  split at h
  · cases h
  · next c found hfound =>
    cases h
    have hskip := (dropWhile_suffix (l := rest) (· = delim)).length_le
    have hnext := (dropWhile_suffix (l := found) (· ≠ delim)).length_le
    rw [hfound, length_cons] at hskip
    exact Nat.lt_of_le_of_lt hnext hskip

/-- The loop of `toArray`. -/
def toArray (delim : UInt8) (rest : Bytes) : List Bytes :=
  match _hnext : nextToken delim rest with
  | .error _ => []
  | .ok next => next.1 :: toArray delim next.2
termination_by rest.length
decreasing_by exact nextToken_shorter ‹_›

/-- `countTokens`, which moves a position of its own. -/
def countTokens (delim : UInt8) (rest : Bytes) : Nat :=
  match hnext : nextToken delim rest with
  | .error _ => 0
  | .ok next => countTokens delim next.2 + 1
termination_by rest.length
decreasing_by exact nextToken_shorter hnext

/-- The parts between delimiters that are not empty; `token` has been read so far. -/
def tokensFrom (delim : UInt8) (token : Bytes) : Bytes → List Bytes
  | [] => if token = [] then [] else [token]
  | c :: rest =>
    if c = delim then (if token = [] then [] else [token]) ++ tokensFrom delim [] rest
    else tokensFrom delim (token ++ [c]) rest

def tokens (delim : UInt8) (string : Bytes) : List Bytes := tokensFrom delim [] string

/-- A token ends with the string or with a delimiter. -/
theorem tokensFrom_part (hne : token ≠ []) (rest : Bytes) :
    tokensFrom delim token rest = (token ++ rest.takeWhile (· ≠ delim)) ::
      tokens delim (rest.dropWhile (· ≠ delim)) := by
  induction rest generalizing token with
  | nil => simp [tokensFrom, tokens, hne]
  | cons c rest ih =>
    by_cases hc : c = delim
    · simp [tokensFrom, tokens, hc, hne]
    · rw [tokensFrom, if_neg hc, ih (by simp)]
      simp [hc]

theorem tokens_dropWhile (rest : Bytes) :
    tokens delim (rest.dropWhile (· = delim)) = tokens delim rest := by
  induction rest with
  | nil => rfl
  | cons c rest ih =>
    by_cases hc : c = delim
    · simpa [hc, tokens, tokensFrom] using ih
    · simp [hc]

/-- What `nextToken` returns is the first of the tokens. -/
theorem tokens_eq (delim : UInt8) (rest : Bytes) : tokens delim rest =
    match nextToken delim rest with
    | .error _ => []
    | .ok next => next.1 :: tokens delim next.2 := by
  rw [← tokens_dropWhile, nextToken]
  cases hskip : rest.dropWhile (· = delim) with
  | nil => rfl
  | cons c found =>
    have hc : c ≠ delim := by
      have hhead := head?_dropWhile_not (fun c => decide (c = delim)) rest
      simpa [hskip] using hhead
    rw [tokens, tokensFrom, if_neg hc]
    exact tokensFrom_part (by simp) found

theorem toArray_eq (delim : UInt8) (rest : Bytes) : toArray delim rest = tokens delim rest := by
  fun_induction toArray delim rest with
  | case1 rest e h => rw [tokens_eq, h]
  | case2 rest next h ih => rw [tokens_eq, h, ih]

theorem countTokens_eq (delim : UInt8) (rest : Bytes) :
    countTokens delim rest = (tokens delim rest).length := by
  fun_induction countTokens delim rest with
  | case1 rest e h => rw [tokens_eq, h, length_nil]
  | case2 rest next h ih => rw [tokens_eq, h, ih, length_cons]

/-- Nothing is lost but the delimiters. -/
theorem flatten_tokensFrom (token string : Bytes) :
    (tokensFrom delim token string).flatten = token ++ string.filter (· ≠ delim) := by
  induction string generalizing token with
  | nil => by_cases htoken : token = [] <;> simp [tokensFrom, htoken]
  | cons c rest ih =>
    rw [tokensFrom]
    by_cases hc : c = delim
    · by_cases htoken : token = [] <;> simp [hc, htoken, ih]
    · simp [hc, ih]

/-- Delimiters at the end separate nothing. -/
theorem tokensFrom_append (token string : Bytes) {delims : Bytes} (h : ∀ c ∈ delims, c = delim) :
    tokensFrom delim token (string ++ delims) = tokensFrom delim token string := by
  induction string generalizing token with
  | nil =>
    induction delims generalizing token with
    | nil => rfl
    | cons c delims ih =>
      obtain ⟨hc, hdelims⟩ := forall_mem_cons.mp h
      have hnone : tokensFrom delim [] delims = [] := ih hdelims []
      show tokensFrom delim token (c :: delims) = tokensFrom delim token []
      rw [tokensFrom.eq_2, if_pos hc, hnone, append_nil, tokensFrom.eq_1]
  | cons c rest ih => rw [cons_append, tokensFrom, tokensFrom, ih, ih]

/-- A delimiter ends a part. -/
theorem tokens_append (part rest : Bytes) (hne : part ≠ []) (hpart : delim ∉ part) :
    tokens delim (part ++ delim :: rest) = part :: tokens delim rest := by
  obtain ⟨c, part, rfl⟩ := exists_cons_of_ne_nil hne
  obtain ⟨hc, hpart⟩ := not_or.mp (mem_cons.not.mp hpart)
  have hpass : ∀ b ∈ part, decide (b ≠ delim) = true := by
    intro b hb
    simpa using ne_of_mem_of_not_mem hb hpart
  rw [tokens, cons_append, tokensFrom, if_neg (Ne.symm hc), tokensFrom_part (by simp),
    takeWhile_append_of_pos hpass, dropWhile_append_of_pos hpass]
  simp [tokens, tokensFrom]

theorem tokens_intercalate {parts : List Bytes} (h : ∀ part ∈ parts, part ≠ [] ∧ delim ∉ part) :
    tokens delim (intercalate [delim] parts) = parts := by
  induction parts with
  | nil => rfl
  | cons part parts ih =>
    obtain ⟨⟨hne, hpart⟩, hparts⟩ := forall_mem_cons.mp h
    cases parts with
    | nil =>
      have hlast := tokens_append part [] hne hpart
      rw [tokens, tokensFrom_append [] part (by simp)] at hlast
      rwa [intercalate_singleton]
    | cons part' parts =>
      rw [intercalate_cons_cons, append_assoc, singleton_append, tokens_append _ _ hne hpart,
        ih hparts]

end ActivemqCpp.Decaf.StringTokenizer
