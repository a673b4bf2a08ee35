import ActivemqCpp.Base.Codec
import ActivemqCpp.Decaf.Lang
import ActivemqCpp.Decaf.StlMap
import ActivemqCpp.Decaf.StringTokenizer

/-!
# Options in a query string

`URISupport::parseQuery` reads options, `createQueryString` writes them, and a destination
takes the options behind the `?` of the name that it is given.
-/

namespace ActivemqCpp.Util

open Base Decaf List StringTokenizer

variable {delim : UInt8} {text key value : Bytes} {parts : List Bytes}

/-- `Properties`, whose keys are compared as strings. -/
abbrev Properties := StlMap Bytes Bytes

def less (a b : Bytes) : Bool := decide (a < b)

def Properties.setProperty (p : Properties) (name value : Bytes) : Properties :=
  StlMap.put less name value p

/-- `replaceEnvValues`; every exception leaves it as an `IllegalArgumentException`. -/
def replaceEnvValues (getenv : Bytes → Bytes) (value : Bytes) : Except Exn Bytes :=
  match value with
  | [] => .error .illegalArgument
  | first :: rest =>
    if first = '$'.toUInt8 then
      if value.length > 3 ∧ rest.head? ≠ some '{'.toUInt8 ∧ value.getLast? ≠ some '}'.toUInt8 then
        .error .illegalArgument
      -- `substr(2, ...)` of a lone `$` throws
      else if rest = [] then .error .illegalArgument
      else
        let var := getenv ((value.drop 2).take (value.length - 3))
        if var = [] then .error .illegalArgument else .ok var
    else .ok value

/-- One round of `parseQuery`; `countTokens` is the number of what `nextToken` can return. -/
def setOption (getenv : Bytes → Bytes) (properties : Properties) (option : Bytes) :
    Except Exn Properties :=
  match toArray '='.toUInt8 option with
  | [key, value] => (replaceEnvValues getenv value).map (properties.setProperty key)
  | _ => .error .illegalArgument

/-- `parseQuery`; nothing reads the properties once it has thrown. -/
def parseQuery (getenv : Bytes → Bytes) (query : Bytes) (properties : Properties) :
    Except Exn Properties :=
  let query := (cut '?'.toUInt8 query).elim query Prod.snd
  (toArray '&'.toUInt8 query).foldlM (setOption getenv) properties

def encodeChar (ch : UInt8) : Bytes :=
  if (Char.ofNat ch.toNat).isAlphanum ∨ ch ∈ ['.', '-', '*', '_'].map Char.toUInt8 then [ch]
  else if ch = ' '.toUInt8 then ['+'.toUInt8]
  else '%'.toUInt8 :: [ch / 16, ch % 16].map fun digit =>
    if digit < 10 then '0'.toUInt8 + digit else 'A'.toUInt8 + (digit - 10)

/-- `URLEncoder::encode`. -/
def encode (src : Bytes) : Bytes := src.flatMap encodeChar

/-- `createQueryString`: the options are written when there are none. -/
def createQueryString (options : Properties) : Bytes :=
  if options = [] then
    (options.foldl (fun (first, rc) (key, value) =>
      (false, rc ++ (if first then [] else ['&'.toUInt8]) ++ encode key ++ '='.toUInt8 ::
        encode value)) (true, [])).2
  else []

/-! ## What is read -/

/-- The characters that have a meaning in a query. -/
def special : Bytes := ['?', '&', '=', '$'].map Char.toUInt8

def Plain (text : Bytes) : Prop := text ≠ [] ∧ ∀ b ∈ text, b ∉ special

/-- `k1=v1&k2=v2&...`. -/
def query (pairs : List (Bytes × Bytes)) : Bytes :=
  intercalate ['&'.toUInt8] (pairs.map fun e => e.1 ++ '='.toUInt8 :: e.2)

variable {pairs : List (Bytes × Bytes)} {getenv : Bytes → Bytes}

theorem notMem_intercalate {b : UInt8} (hdelim : b ≠ delim) (h : ∀ part ∈ parts, b ∉ part) :
    b ∉ intercalate [delim] parts := by
  induction parts with
  | nil => simp
  | cons part parts ih =>
    obtain ⟨hpart, hparts⟩ := forall_mem_cons.mp h
    cases parts with
    | nil => rwa [intercalate_singleton]
    | cons part' parts => simp [hpart, hdelim, ih hparts]

theorem ordered : StlMap.OrderedOn less fun _ => True where
  irrefl _ := decide_eq_false (List.lt_irrefl _)
  trans _ _ _ hab hbc :=
    decide_eq_true (List.lt_trans (of_decide_eq_true hab) (of_decide_eq_true hbc))
  total _ _ hne := by
    by_contra hno
    simp only [less, decide_eq_true_iff, not_or] at hno
    exact hne (List.le_antisymm hno.2 hno.1)

/-- The entries of distinct keys, set one after the other. -/
theorem mem_foldl_setProperty (hnodup : (pairs.map Prod.fst).Nodup) {p : Properties}
    (hwf : StlMap.Wf less (fun _ => True) p) (hnew : ∀ e ∈ p, e.1 ∉ pairs.map Prod.fst)
    (x : Bytes × Bytes) :
    x ∈ pairs.foldl (fun p e => p.setProperty e.1 e.2) p ↔ x ∈ p ∨ x ∈ pairs := by
  induction pairs generalizing p with
  | nil => simp
  | cons e pairs ih =>
    obtain ⟨hfirst, hrest⟩ := nodup_cons.mp hnodup
    have hput : ∀ y, y ∈ p.setProperty e.1 e.2 ↔ y = e ∨ y ∈ p := by
      intro y
      refine (StlMap.mem_put ordered hwf trivial).trans (or_congr_right ⟨And.left, ?_⟩)
      exact fun hy => ⟨hy, fun heq => hnew y hy (heq ▸ mem_cons_self)⟩
    refine (ih hrest (StlMap.wf_put ordered hwf trivial e.2) fun y hy => ?_).trans ?_
    · obtain rfl | hy := (hput y).mp hy
      · exact hfirst
      · exact fun hin => hnew y hy (mem_cons_of_mem _ hin)
    · exact (or_congr_left (hput x)).trans (by rw [mem_cons]; tauto)

theorem Plain.notMem (h : Plain text) {b : UInt8} (hb : b ∈ special) : b ∉ text :=
  fun hin => h.2 b hin hb

theorem setOption_pair (hkey : Plain key) (hvalue : Plain value) (p : Properties) :
    setOption getenv p (key ++ '='.toUInt8 :: value) = .ok (p.setProperty key value) := by
  have hparts : ∀ part ∈ [key, value], part ≠ [] ∧ '='.toUInt8 ∉ part := by
    have heq : '='.toUInt8 ∈ special := by decide
    simp [hkey.1, hvalue.1, hkey.notMem heq, hvalue.notMem heq]
  have htokens : tokens '='.toUInt8 (key ++ '='.toUInt8 :: value) = [key, value] := by
    simpa using tokens_intercalate hparts
  have hreplace : replaceEnvValues getenv value = .ok value := by
    obtain ⟨b, rest, rfl⟩ := exists_cons_of_ne_nil hvalue.1
    refine if_neg ?_
    rintro rfl
    exact hvalue.notMem (by decide) mem_cons_self
  rw [setOption, toArray_eq, htokens]
  simp only [hreplace]
  rfl

theorem parseQuery_query (getenv : Bytes → Bytes) (hplain : ∀ e ∈ pairs, Plain e.1 ∧ Plain e.2)
    (hnodup : (pairs.map Prod.fst).Nodup) : ∃ options,
      parseQuery getenv (query pairs) [] = .ok options ∧ ∀ e, e ∈ options ↔ e ∈ pairs := by
  have hparts : ∀ b ∈ special, b ≠ '='.toUInt8 →
      ∀ part ∈ pairs.map fun e => e.1 ++ '='.toUInt8 :: e.2, part ≠ [] ∧ b ∉ part := by
    intro b hb hne part hpart
    obtain ⟨e, he, rfl⟩ := mem_map.mp hpart
    obtain ⟨hkey, hvalue⟩ := hplain e he
    simp [hkey.notMem hb, hvalue.notMem hb, hne]
  have hfold : ∀ p : Properties, (pairs.map fun e => e.1 ++ '='.toUInt8 :: e.2).foldlM
      (setOption getenv) p = .ok (pairs.foldl (fun p e => p.setProperty e.1 e.2) p) := by
    clear hparts hnodup
    induction pairs with
    | nil => exact fun p => rfl
    | cons e pairs ih =>
      intro p
      obtain ⟨⟨hkey, hvalue⟩, hrest⟩ := forall_mem_cons.mp hplain
      rw [map_cons, foldlM_cons, setOption_pair hkey hvalue]
      exact ih hrest _
  refine ⟨pairs.foldl (fun p e => p.setProperty e.1 e.2) [], ?_, fun e => ?_⟩
  · rw [parseQuery, query, cut_eq_none (notMem_intercalate (by decide) fun part h =>
      (hparts _ (by decide) (by decide) part h).2)]
    simp only [Option.elim_none]
    rw [toArray_eq, tokens_intercalate (hparts _ (by decide) (by decide))]
    exact hfold []
  · simpa using mem_foldl_setProperty hnodup StlMap.wf_nil nofun e

theorem encodeChar_of_encode (h : encode text = text) : ∀ b ∈ text, encodeChar b = [b] := by
  have hpos : ∀ b, 0 < (encodeChar b).length := by
    intro b
    unfold encodeChar
    split
    · simp
    · split <;> simp
  have hlength : ∀ text : Bytes, text.length ≤ (encode text).length := by
    intro text
    induction text with
    | nil => simp
    | cons b text ih => grind [encode]
  induction text with
  | nil => simp
  | cons b text ih =>
    have heq : encodeChar b ++ encode text = b :: text := h
    obtain ⟨b', hb⟩ : ∃ b', encodeChar b = [b'] := by
      have hsize := congrArg length heq
      have hb := hpos b
      have htext := hlength text
      rw [length_append, length_cons] at hsize
      exact length_eq_one_iff.mp (by omega)
    rw [hb] at heq
    obtain ⟨rfl, htext⟩ := cons.inj heq
    exact forall_mem_cons.mpr ⟨hb, ih htext⟩

theorem plain_of_encode (h : text ≠ [] ∧ encode text = text) : Plain text := by
  have hspecial : ∀ b ∈ special, encodeChar b ≠ [b] := by decide +kernel
  exact ⟨h.1, fun b hb hin => hspecial b hin (encodeChar_of_encode h.2 b hb)⟩

/-- **Queries.** The options that were written are read back *iff* there are none; a query of
distinct keys is read as it stands. -/
theorem query_roundTrip_iff (getenv : Bytes → Bytes) (p : Properties) :
    (parseQuery getenv (createQueryString p) [] = .ok p ↔ p = []) ∧
    ∀ pairs : List (Bytes × Bytes), (pairs.map Prod.fst).Nodup →
      (∀ e ∈ pairs, (e.1 ≠ [] ∧ encode e.1 = e.1) ∧ e.2 ≠ [] ∧ encode e.2 = e.2) →
      ∃ options, parseQuery getenv (query pairs) [] = .ok options ∧
        ∀ e, e ∈ options ↔ e ∈ pairs := by
  constructor
  · have hcreate : createQueryString p = [] := by
      unfold createQueryString
      split
      · next hnil => rw [hnil]; rfl
      · rfl
    have hparse : parseQuery getenv [] [] = .ok [] := by
      rw [parseQuery, toArray_eq]
      rfl
    rw [hcreate, hparse, Except.ok.injEq, eq_comm]
  · intro pairs hnodup h
    exact parseQuery_query getenv (fun e he => (h e he).imp plain_of_encode plain_of_encode) hnodup

/-- The query `a=1`. -/
theorem query_roundTrip_pair : ∃ options,
    parseQuery (fun _ => []) (query [([97], [49])]) [] = .ok options ∧
      ∀ e, e ∈ options ↔ e ∈ [([97], [49])] :=
  (query_roundTrip_iff (fun _ => []) []).2 [([97], [49])] (by decide) (by decide)

/-- The option `a=1` is lost. -/
theorem option_lost :
    parseQuery (fun _ => []) (createQueryString [([97], [49])]) [] ≠ .ok [([97], [49])] := by
  rw [parseQuery, toArray_eq]
  decide

/-! ## The name of a destination -/

/-- What the name sets in an `ActiveMQDestination`. -/
structure Named where
  physicalName : Bytes
  options : Properties
  advisory : Bool

/-- `AdvisorySupport::ADVISORY_TOPIC_PREFIX`. -/
def advisoryTopicPrefix : Bytes := "ActiveMQ.Advisory.".toUTF8.toList

/-- `physicalName.find_first_of(ADVISORY_TOPIC_PREFIX) == 0`: any of its characters is found. -/
def foundFirst (physicalName : Bytes) : Bool := physicalName.head?.any (· ∈ advisoryTopicPrefix)

/-- `setPhysicalName`. -/
def setPhysicalName (getenv : Bytes → Bytes) (d : Named) (physicalName : Bytes) :
    Except Exn Named :=
  let advisory := foundFirst physicalName
  match cut '?'.toUInt8 physicalName with
  | none => .ok ⟨physicalName, d.options, advisory⟩
  | some (name, optstring) => (parseQuery getenv optstring d.options).map (⟨name, ·, advisory⟩)

/-- A fresh destination takes a name with options apart, and is advisory if `kind` holds. -/
def Takes (getenv : Bytes → Bytes) (name : Bytes) (pairs : List (Bytes × Bytes)) (kind : Prop) :
    Prop :=
  ∃ d, setPhysicalName getenv ⟨[], [], false⟩ (name ++ '?'.toUInt8 :: query pairs) = .ok d ∧
    d.physicalName = name ∧ (∀ e, e ∈ d.options ↔ e ∈ pairs) ∧ (d.advisory = true ↔ kind)

variable {name : Bytes}

/-- What the first character tells. -/
theorem takes_first (getenv : Bytes → Bytes) (hname : '?'.toUInt8 ∉ name)
    (hplain : ∀ e ∈ pairs, Plain e.1 ∧ Plain e.2) (hnodup : (pairs.map Prod.fst).Nodup) :
    Takes getenv name pairs (∃ b ∈ name.head?, b ∈ advisoryTopicPrefix) := by
  obtain ⟨options, hparse, hoptions⟩ := parseQuery_query getenv hplain hnodup
  refine ⟨⟨name, options, foundFirst (name ++ '?'.toUInt8 :: query pairs)⟩, ?_, rfl, hoptions, ?_⟩
  · rw [setPhysicalName, cut_append hname]
    simp only [hparse]
    rfl
  · have hno : '?'.toUInt8 ∉ advisoryTopicPrefix := by decide +kernel
    cases name <;> simp [foundFirst, hno]

theorem Takes.unique {kind kind' : Prop} (h : Takes getenv name pairs kind)
    (h' : Takes getenv name pairs kind') : kind ↔ kind' := by
  obtain ⟨d, hset, -, -, hkind⟩ := h
  obtain ⟨d', hset', -, -, hkind'⟩ := h'
  rw [hset] at hset'
  cases hset'
  exact hkind.symm.trans hkind'

/-- **Names.** A name with options is taken as it is meant *iff* it begins with the text of
advisory topics, or with none of its characters. -/
theorem takes_iff (hname : '?'.toUInt8 ∉ name) (hplain : ∀ e ∈ pairs, Plain e.1 ∧ Plain e.2)
    (hnodup : (pairs.map Prod.fst).Nodup) :
    Takes getenv name pairs (advisoryTopicPrefix <+: name) ↔
      advisoryTopicPrefix <+: name ∨ ∀ b ∈ name.head?, b ∉ advisoryTopicPrefix := by
  have hfirst := takes_first getenv hname hplain hnodup
  have hhead : advisoryTopicPrefix <+: name → ∃ b ∈ name.head?, b ∈ advisoryTopicPrefix := by
    rintro ⟨rest, rfl⟩
    have hne : advisoryTopicPrefix ≠ [] := by decide +kernel
    exact ⟨_, head?_append_of_ne_nil _ hne ▸ head?_eq_some_head hne, head_mem hne⟩
  constructor
  · intro h
    by_cases hadvisory : advisoryTopicPrefix <+: name
    · exact .inl hadvisory
    · exact .inr fun b hb hin => hadvisory ((hfirst.unique h).mp ⟨b, hb, hin⟩)
  · rintro (hadvisory | hother)
    · rwa [iff_true_intro (hhead hadvisory), ← iff_true_intro hadvisory] at hfirst
    · have hno : ¬ ∃ b ∈ name.head?, b ∈ advisoryTopicPrefix := fun ⟨b, hb, hin⟩ => hother b hb hin
      rwa [iff_false_intro hno, ← iff_false_intro (hno ∘ hhead)] at hfirst

/-- The name `q?a=1`. -/
theorem takes_letter : Takes (fun _ => []) [113] [([97], [49])] (advisoryTopicPrefix <+: [113]) :=
  (takes_iff (by decide) (by simp [Plain]; decide) (by simp)).mpr (by decide +kernel)

/-- The name `c?a=1` is taken for that of an advisory topic. -/
theorem not_takes_letter :
    ¬ Takes (fun _ => []) [99] [([97], [49])] (advisoryTopicPrefix <+: [99]) := by
  intro h
  have hfirst : Takes (fun _ => []) [99] [([97], [49])] _ :=
    takes_first _ (by decide) (by simp [Plain]; decide) (by simp)
  exact absurd (hfirst.unique h) (by decide +kernel)

end ActivemqCpp.Util
