import Mathlib.Data.List.TakeWhile
import Mathlib.Tactic

/-!
# Codecs over a stream of items and a stream of flags

A format that packs its booleans apart from its bytes is written in two passes
and read in one:

* the **first pass** appends flags and counts the items that will follow;
* the **second pass** (`Emitter`) reads the flags back and emits the items;
* the **reader** (`Reader`) consumes items and flags.

`Emits` and `Decodes` say what the last two do on exactly the given streams,
whatever follows on them; both are closed under sequencing, so the law of a
record is the sequence of the laws of its fields. A format without flags is the
case of no flags.
-/

namespace ActivemqCpp.Base

open List

/-- What a reader has left to read. -/
structure Input (β : Type) where
  items : List β
  flags : List Bool
deriving DecidableEq, Repr

abbrev Reader (β ε : Type) := StateT (Input β) (Except ε)

abbrev Emitter (β ε : Type) := List Bool → Except ε (List β × List Bool)

variable {β ε α γ : Type}

/-- Read in front of anything, the items and flags give the value and are consumed
exactly. -/
def Decodes (r : Reader β ε α) (items : List β) (flags : List Bool) (a : α) : Prop :=
  ∀ rest more, r.run ⟨items ++ rest, flags ++ more⟩ = .ok (a, ⟨rest, more⟩)

/-- The emitter consumes exactly the flags and emits the items. -/
def Emits (w : Emitter β ε) (flags : List Bool) (items : List β) : Prop :=
  ∀ more, w (flags ++ more) = .ok (items, more)

/-- What comes after a step that succeeded. -/
theorem ok_of_bind {x : Except ε α} {f : α → Except ε γ} {c : γ} (h : x >>= f = .ok c) :
    ∃ a, x = .ok a ∧ f a = .ok c := by
  cases x with
  | error e => cases h
  | ok a => exact ⟨a, rfl, h⟩

/-! ## Readers -/

theorem decodes_pure (a : α) : Decodes (pure a : Reader β ε α) [] [] a := by
  intro rest more
  rfl

variable {r : Reader β ε α} {a : α} {c : γ} {items items' : List β} {flags flags' : List Bool}
  {k : α → Reader β ε γ} {left input : Input β}

theorem Decodes.bind (hr : Decodes r items flags a) (hk : Decodes (k a) items' flags' c) :
    Decodes (r >>= k) (items ++ items') (flags ++ flags') c := by
  intro rest more
  have hfirst := hr (items' ++ rest) (flags' ++ more)
  rw [StateT.run_bind, append_assoc, append_assoc, hfirst]
  exact hk rest more

/-- A reader of items alone, first. -/
theorem Decodes.thenItems (hr : Decodes r items [] a)
    (hk : Decodes (k a) items' flags c) : Decodes (r >>= k) (items ++ items') flags c :=
  hr.bind hk

/-- A reader of flags alone, first. -/
theorem Decodes.thenFlags (hr : Decodes r [] flags a)
    (hk : Decodes (k a) items flags' c) : Decodes (r >>= k) items (flags ++ flags') c :=
  hr.bind hk

/-- What comes after a reader that succeeded. -/
theorem run_of_bind (h : (r >>= k).run input = .ok (c, left)) :
    ∃ b rest, r.run input = .ok (b, rest) ∧ (k b).run rest = .ok (c, left) := by
  obtain ⟨⟨b, rest⟩, hfirst, hsecond⟩ := ok_of_bind h
  exact ⟨b, rest, hfirst, hsecond⟩

theorem run_of_map {f : α → γ} (h : (f <$> r).run input = .ok (c, left)) :
    ∃ b, r.run input = .ok (b, left) ∧ c = f b := by
  rw [map_eq_pure_bind] at h
  obtain ⟨b, rest, hrun, hpure⟩ := run_of_bind h
  cases hpure
  exact ⟨b, hrun, rfl⟩

/-- A reader is a function: what it decodes is determined. -/
theorem Decodes.unique (h : Decodes r items flags a) {b : α}
    (hrun : r.run ⟨items, flags⟩ = .ok (b, left)) : b = a := by
  have hown := h [] []
  rw [append_nil, append_nil, hrun] at hown
  injection hown with heq
  exact (Prod.mk.inj heq).1

theorem Decodes.map (hr : Decodes r items flags a)
    (f : α → γ) : Decodes (f <$> r) items flags (f a) := by
  intro rest more
  rw [StateT.run_map, hr rest more]
  rfl

/-- The next `n` items, or the exception for a stream that ends before. -/
def takeItems (eof : ε) (n : Nat) : Reader β ε (List β) := fun s =>
  if s.items.length < n then .error eof
  else .ok (s.items.take n, { s with items := s.items.drop n })

theorem decodes_takeItems (eof : ε) (items : List β) :
    Decodes (takeItems eof items.length) items [] items := by
  intro rest more
  show (if (items ++ rest).length < items.length then _ else _) = _
  simp

theorem run_takeItems {eof : ε} {n : Nat} (h : (takeItems eof n).run input = .ok (items, left)) :
    items.length = n ∧ left.flags = input.flags := by
  change (if input.items.length < n then _ else _) = _ at h
  split at h
  · cases h
  · cases h
    exact ⟨by rw [length_take]; omega, rfl⟩

/-- The reader leaves the flags alone. -/
def Quiet (r : Reader β ε α) : Prop :=
  ∀ input b left, r.run input = .ok (b, left) → left.flags = input.flags

theorem quiet_pure (a : α) : Quiet (pure a : Reader β ε α) := by
  rintro input b left ⟨⟩
  rfl

theorem Quiet.bind (hr : Quiet r) (hk : ∀ b, Quiet (k b)) : Quiet (r >>= k) := by
  intro input c left h
  obtain ⟨b, rest, hfirst, hsecond⟩ := run_of_bind h
  rw [hk b _ _ _ hsecond, hr _ _ _ hfirst]

theorem Quiet.map (hr : Quiet r) (f : α → γ) : Quiet (f <$> r) := by
  exact hr.bind fun b => quiet_pure (f b)

/-- The next flag, or the exception for a stream that ends before. -/
def takeFlag (eof : ε) : Reader β ε Bool := fun s =>
  match s.flags with
  | [] => .error eof
  | b :: flags => .ok (b, { s with flags })

theorem decodes_takeFlag (eof : ε) (b : Bool) :
    Decodes (takeFlag eof : Reader β ε Bool) [] [b] b := by
  intro rest more
  rfl

/-- A counted loop of readers that threads what it has built so far. -/
def readLoop (step : α → Reader β ε α) : Nat → α → Reader β ε α
  | 0, a => pure a
  | n + 1, a => step a >>= readLoop step n

/-! ## Emitters -/

/-- One emitter after the other. -/
def emitBoth (v w : Emitter β ε) : Emitter β ε := fun flags =>
  match v flags with
  | .error e => .error e
  | .ok (first, flags) =>
    match w flags with
    | .error e => .error e
    | .ok (second, flags) => .ok (first ++ second, flags)

/-- An emitter that reads no flag. -/
def emitItems (items : List β) : Emitter β ε := fun flags => .ok (items, flags)

/-- An emitter that reads no flag and may throw. -/
def emitExcept (items : Except ε (List β)) : Emitter β ε := fun flags =>
  items.map fun bs => (bs, flags)

/-- Read the next flag and go on with it. -/
def withFlag (eof : ε) (k : Bool → Emitter β ε) : Emitter β ε := fun flags =>
  match flags with
  | [] => .error eof
  | b :: more => k b more

theorem emits_items (items : List β) : Emits (emitItems items : Emitter β ε) [] items := by
  intro more
  rfl

theorem emits_except {items : Except ε (List β)} {bs : List β} (h : items = .ok bs) :
    Emits (emitExcept items) [] bs := by
  intro more
  rw [h]
  rfl

/-- An emitter is a function: what it emits is determined. -/
theorem Emits.unique {w : Emitter β ε} (h : Emits w flags items)
    (h' : Emits w flags items') : items = items' := by
  have heq := (h []).symm.trans (h' [])
  injection heq with heq
  exact (Prod.mk.inj heq).1

theorem Emits.both {v w : Emitter β ε} (hv : Emits v flags items) (hw : Emits w flags' items') :
    Emits (emitBoth v w) (flags ++ flags') (items ++ items') := by
  intro more
  have hfirst := hv (flags' ++ more)
  have hsecond := hw more
  simp [emitBoth, append_assoc, hfirst, hsecond]

theorem emits_withFlag (eof : ε) {k : Bool → Emitter β ε} {b : Bool} (h : Emits (k b) flags items) :
    Emits (withFlag eof k) (b :: flags) items := by
  intro more
  exact h more

/-! ## Nested formats

A reader of a nested format runs on fuel. Every level of nesting reads an item, so
as much fuel as there are items to read is enough, and the fuel of a whole is
enough for its parts. -/

/-- The reader one level down; without fuel the stream is taken to end. -/
def below (eof : ε) (reader : Nat → Reader β ε α) : Nat → Reader β ε α
  | 0 => throw eof
  | fuel + 1 => reader fuel

/-- What was written in one pass, chunk after chunk, is read back as `value`. -/
def ReadsBack (written : Except ε (List (List β))) (reader : Nat → Reader β ε α) (value : α) :
    Prop :=
  ∃ chunks, written = .ok chunks ∧
    ∀ fuel, chunks.flatten.length ≤ fuel → Decodes (reader fuel) chunks.flatten [] value

/-- One writer after the other. -/
def writeBoth (v w : Except ε (List β)) : Except ε (List β) := do
  let first ← v
  let second ← w
  .ok (first ++ second)

variable {reader : Nat → Reader β ε α}

/-- A part that looks at no fuel. -/
theorem readsBack_ok {chunks : List (List β)} {value : α}
    (h : ∀ fuel, Decodes (reader fuel) items [] value)
    (hitems : chunks.flatten = items := by simp) : ReadsBack (.ok chunks) reader value :=
  ⟨chunks, rfl, fun fuel _ => hitems ▸ h fuel⟩

theorem ReadsBack.map {written : Except ε (List (List β))} {value : α}
    (h : ReadsBack written reader value) (f : α → γ) :
    ReadsBack written (fun fuel => f <$> reader fuel) (f value) := by
  obtain ⟨chunks, hchunks, hdecodes⟩ := h
  exact ⟨chunks, hchunks, fun fuel hfuel => (hdecodes fuel hfuel).map f⟩

variable {k : Nat → α → Reader β ε γ}

theorem ReadsBack.bind {v w : Except ε (List (List β))}
    (hv : ReadsBack v reader a) (hw : ReadsBack w (fun fuel => k fuel a) c) :
    ReadsBack (writeBoth v w) (fun fuel => reader fuel >>= k fuel) c := by
  obtain ⟨chunks, hchunks, hfirst⟩ := hv
  obtain ⟨chunks', hchunks', hsecond⟩ := hw
  refine ⟨chunks ++ chunks', by rw [hchunks, hchunks']; rfl, ?_⟩
  intro fuel hfuel
  rw [flatten_append, length_append] at hfuel
  rw [flatten_append]
  exact (hfirst fuel (by omega)).bind (hsecond fuel (by omega))

/-- Where two writers succeed one after the other, each does. -/
theorem ok_of_writeBoth {v w : Except ε (List β)} {both : List β}
    (h : writeBoth v w = .ok both) : (∃ first, v = .ok first) ∧ ∃ second, w = .ok second := by
  obtain ⟨first, hfirst, h⟩ := ok_of_bind h
  obtain ⟨second, hsecond, -⟩ := ok_of_bind h
  exact ⟨⟨first, hfirst⟩, second, hsecond⟩

/-! The counts may be numbers of any kind, such as those of a fixed width, which wrap around. -/

variable {κ : Type} [AddCommMonoidWithOne κ]

/-- The counts and the flags of one first pass after the other. -/
def countBoth (v w : Except ε (κ × List Bool)) : Except ε (κ × List Bool) := do
  let first ← v
  let second ← w
  .ok (first.1 + second.1, first.2 ++ second.2)

theorem ok_of_countBoth {v w : Except ε (κ × List Bool)} {size : κ}
    (h : countBoth v w = .ok (size, flags)) : ∃ n front m back, v = .ok (n, front) ∧
      w = .ok (m, back) ∧ flags = front ++ back := by
  obtain ⟨⟨n, front⟩, hv, h⟩ := ok_of_bind h
  obtain ⟨⟨m, back⟩, hw, h⟩ := ok_of_bind h
  cases h
  exact ⟨n, front, m, back, hv, hw, rfl⟩

/-- The three parts of a two-pass format agree on one value: the first pass counts
the items of the second and `surplus` more, and under `ok` the reader gives the value
back from the flags of the first pass and the items of the second. -/
def TwoPass (ok : Prop) (first : Except ε (κ × List Bool)) (second : Emitter β ε)
    (reader : Nat → Reader β ε α) (surplus : Nat) (value : α) : Prop :=
  ∃ flags items, first = .ok ((items.length + surplus : ℕ), flags) ∧ Emits second flags items ∧
    (ok → ∀ fuel, items.length ≤ fuel → Decodes (reader fuel) items flags value)

variable {ok : Prop} {reader : Nat → Reader β ε α} {surplus : Nat} {value : α}
  {second : Emitter β ε}

/-- Flags alone. -/
theorem twoPass_flags (hemits : Emits second flags [])
    (hdecodes : ok → ∀ fuel, Decodes (reader fuel) [] flags value) :
    TwoPass ok (.ok ((0 : κ), flags)) second reader 0 value :=
  ⟨flags, [], by simp, hemits, fun hok fuel _ => hdecodes hok fuel⟩

/-- Items alone, counted as `count`. -/
theorem twoPass_items {count : κ} (hcount : count = (items.length + surplus : ℕ))
    (hdecodes : ok → ∀ fuel, items.length ≤ fuel → Decodes (reader fuel) items [] value) :
    TwoPass ok (.ok (count, [])) (emitItems items) reader surplus value :=
  ⟨[], items, by rw [hcount], emits_items items, hdecodes⟩

variable {first : Except ε (κ × List Bool)} (h : TwoPass ok first second reader surplus value)
include h

theorem TwoPass.map (f : α → γ) :
    TwoPass ok first second (fun fuel => f <$> reader fuel) surplus (f value) := by
  obtain ⟨flags, items, hfirst, hsecond, hdecodes⟩ := h
  exact ⟨flags, items, hfirst, hsecond, fun hok fuel hfuel => (hdecodes hok fuel hfuel).map f⟩

variable {first' : Except ε (κ × List Bool)} {second' : Emitter β ε}

omit h in
/-- What is counted in `ℕ` may be counted in any numbers. -/
theorem TwoPass.cast {first : ℕ × List Bool}
    (h : TwoPass ok (.ok first) second reader surplus value) :
    TwoPass ok (.ok ((first.1 : κ), first.2)) second reader surplus value := by
  obtain ⟨flags, items, hfirst, hsecond, hdecodes⟩ := h
  cases hfirst
  exact ⟨flags, items, rfl, hsecond, hdecodes⟩

theorem TwoPass.bind {surplus' : Nat}
    (h' : TwoPass ok first' second' (fun fuel => k fuel value) surplus' c) :
    TwoPass ok (countBoth first first') (emitBoth second second')
      (fun fuel => reader fuel >>= k fuel) (surplus + surplus') c := by
  obtain ⟨flags, items, hfirst, hsecond, hdecodes⟩ := h
  obtain ⟨flags', items', hfirst', hsecond', hdecodes'⟩ := h'
  refine ⟨flags ++ flags', items ++ items', ?_, hsecond.both hsecond', ?_⟩
  · rw [hfirst, hfirst', length_append]
    show Except.ok (_, _) = Except.ok (_, _)
    push_cast
    congr 2
    abel
  · intro hok fuel hfuel
    rw [length_append] at hfuel
    exact (hdecodes hok fuel (by omega)).bind (hdecodes' hok fuel (by omega))

omit h

/-- A part that is counted exactly, first. -/
theorem TwoPass.exactly (h : TwoPass ok first second reader 0 value)
    (h' : TwoPass ok first' second' (fun fuel => k fuel value) surplus c) :
    TwoPass ok (countBoth first first') (emitBoth second second')
      (fun fuel => reader fuel >>= k fuel) surplus c := by
  have hboth := h.bind h'
  rwa [Nat.zero_add] at hboth

/-- A first pass that starts with a flag. -/
def countFlag (b : Bool) (first : Except ε (κ × List Bool)) : Except ε (κ × List Bool) :=
  first.map fun counted => (counted.1, b :: counted.2)

/-- A flag that the first pass writes and both others read first. -/
theorem TwoPass.flag {eof : ε} {b : Bool} {second : Bool → Emitter β ε}
    {k : Nat → Bool → Reader β ε α}
    (h : TwoPass ok first (second b) (fun fuel => k fuel b) surplus value) :
    TwoPass ok (countFlag b first) (withFlag eof second)
      (fun fuel => takeFlag eof >>= k fuel) surplus value := by
  obtain ⟨flags, items, hfirst, hsecond, hdecodes⟩ := h
  refine ⟨b :: flags, items, by rw [hfirst]; rfl, emits_withFlag eof hsecond, ?_⟩
  intro hok fuel hfuel
  exact (decodes_takeFlag eof b).thenFlags (hdecodes hok fuel hfuel)

theorem TwoPass.mono {ok' : Prop} (h : TwoPass ok first second reader surplus value)
    (himp : ok' → ok) :
    TwoPass ok' first second reader surplus value := by
  obtain ⟨flags, items, hfirst, hsecond, hdecodes⟩ := h
  exact ⟨flags, items, hfirst, hsecond, fun hok' => hdecodes (himp hok')⟩

/-! One level down: once an item has been read, what follows may run on less fuel. -/

variable {R : Nat → Reader β ε γ}

theorem ReadsBack.descend {w : Except ε (List (List β))} (hne : items ≠ [])
    (hr : Decodes r items [] a) (hw : ReadsBack w (fun fuel => k fuel a) c)
    (hR : ∀ fuel, R (fuel + 1) = r >>= k fuel) : ReadsBack (writeBoth (.ok [items]) w) R c := by
  obtain ⟨chunks, hchunks, hdecodes⟩ := hw
  refine ⟨items :: chunks, by rw [hchunks]; rfl, ?_⟩
  intro fuel hfuel
  have hpos : 0 < items.length := length_pos_of_ne_nil hne
  rw [flatten_cons, length_append] at hfuel
  obtain ⟨fuel, rfl⟩ : ∃ n, fuel = n + 1 := ⟨fuel - 1, by omega⟩
  rw [hR]
  exact hr.bind (hdecodes fuel (by omega))

theorem TwoPass.descend {count : κ} (hcount : count = items.length) (hne : items ≠ [])
    (hr : Decodes r items [] a) (h : TwoPass ok first second (fun fuel => k fuel a) surplus c)
    (hR : ∀ fuel, R (fuel + 1) = r >>= k fuel) :
    TwoPass ok (countBoth (.ok (count, [])) first) (emitBoth (emitItems items) second) R
      surplus c := by
  obtain ⟨flags, items', hfirst, hsecond, hdecodes⟩ := h
  refine ⟨flags, items ++ items', ?_, (emits_items items).both hsecond, ?_⟩
  · rw [hfirst, hcount, length_append, Nat.add_assoc, Nat.cast_add items.length]
    rfl
  · intro hok fuel hfuel
    have hpos : 0 < items.length := length_pos_of_ne_nil hne
    rw [length_append] at hfuel
    obtain ⟨fuel, rfl⟩ : ∃ n, fuel = n + 1 := ⟨fuel - 1, by omega⟩
    rw [hR]
    exact hr.thenItems (hdecodes hok fuel (by omega))

/-! ## Lists -/

/-- One round of a loop that collects what it reads. -/
def pushItem (r : Reader β ε α) (before : List α) : Reader β ε (List α) :=
  (before ++ [·]) <$> r

def writeAll (ws : List (Except ε (List β))) : Except ε (List β) :=
  ws.foldr writeBoth (.ok [])

def countAll (firsts : List (Except ε (κ × List Bool))) : Except ε (κ × List Bool) :=
  firsts.foldr countBoth (.ok (0, []))

def emitAll (seconds : List (Emitter β ε)) : Emitter β ε :=
  seconds.foldr emitBoth (emitItems [])

/-- The loop adds to what was read before, once a round. -/
theorem run_readLoop {n : Nat} {before all : List α}
    (h : (readLoop (pushItem r) n before).run input = .ok (all, left)) :
    before <+: all ∧ all.length = before.length + n := by
  induction n generalizing before input with
  | zero =>
    cases h
    exact ⟨prefix_rfl, rfl⟩
  | succ n ih =>
    obtain ⟨_, rest, hpush, hloop⟩ := run_of_bind h
    obtain ⟨b, -, rfl⟩ := run_of_map hpush
    obtain ⟨hbefore, hlength⟩ := ih hloop
    refine ⟨(prefix_append before [b]).trans hbefore, ?_⟩
    rw [hlength, length_append, length_singleton]
    omega

variable {back : γ → α}

theorem readsBack_list {write : γ → Except ε (List (List β))} :
    ∀ {values : List γ}, (∀ v ∈ values, ReadsBack (write v) reader (back v)) → ∀ before,
    ReadsBack (writeAll (values.map write))
      (fun fuel => readLoop (pushItem (reader fuel)) values.length before)
      (before ++ values.map back)
  | [] => by
    intro _ before
    simp only [map_nil, append_nil]
    exact readsBack_ok fun _ => decodes_pure before
  | v :: values => by
    intro h before
    obtain ⟨hv, hvalues⟩ := forall_mem_cons.mp h
    have hrest := readsBack_list hvalues (before ++ [back v])
    rw [append_assoc] at hrest
    exact (hv.map (before ++ [·])).bind hrest

theorem twoPass_list {first : γ → Except ε (κ × List Bool)} {second : γ → Emitter β ε}
    {extra : γ → Nat} : ∀ {values : List γ},
    (∀ v ∈ values, TwoPass ok (first v) (second v) reader (extra v) (back v)) → ∀ before,
    TwoPass ok (countAll (values.map first)) (emitAll (values.map second))
      (fun fuel => readLoop (pushItem (reader fuel)) values.length before)
      (values.map extra).sum (before ++ values.map back)
  | [] => by
    intro _ before
    simp only [map_nil, append_nil]
    exact twoPass_flags (emits_items []) fun _ _ => decodes_pure before
  | v :: values => by
    intro h before
    obtain ⟨hv, hvalues⟩ := forall_mem_cons.mp h
    have hrest := twoPass_list hvalues (before ++ [back v])
    rw [append_assoc] at hrest
    exact (hv.map (before ++ [·])).bind hrest

/-! ## Delimited items -/

section Delimited

variable {α : Type*} [DecidableEq α]

/-- What stands in front of the first `stop`, and what stands behind it. -/
def cut (stop : α) (items : List α) : Option (List α × List α) :=
  match items.dropWhile (· ≠ stop) with
  | [] => none
  | _ :: rest => some (items.takeWhile (· ≠ stop), rest)

variable {items : List α} {stop : α}

theorem cut_append (h : stop ∉ items) (rest : List α) :
    cut stop (items ++ stop :: rest) = some (items, rest) := by
  have hpass : ∀ x ∈ items, decide (x ≠ stop) = true := by
    intro x hx
    rw [decide_eq_true_iff]
    exact ne_of_mem_of_not_mem hx h
  rw [cut, dropWhile_append_of_pos hpass, takeWhile_append_of_pos hpass,
    dropWhile_cons_of_neg (by simp), takeWhile_cons_of_neg (by simp), append_nil]

theorem cut_eq_none (h : stop ∉ items) : cut stop items = none := by
  have hnil : items.dropWhile (· ≠ stop) = [] := by
    rw [dropWhile_eq_nil_iff]
    intro x hx
    rw [decide_eq_true_iff]
    exact ne_of_mem_of_not_mem hx h
  rw [cut, hnil]

theorem eq_of_cut {before after : List α} (h : cut stop items = some (before, after)) :
    items = before ++ stop :: after ∧ stop ∉ before := by
  by_cases hin : stop ∈ items
  · obtain ⟨first, rest, rfl, hfirst⟩ := eq_append_cons_of_mem hin
    rw [cut_append hfirst] at h
    cases h
    exact ⟨rfl, hfirst⟩
  · rw [cut_eq_none hin] at h
    cases h

end Delimited

end ActivemqCpp.Base
