import Mathlib
import Schematic.Check.Run

/-!
# Message maps as finite maps

A context's messages are a list of `(path, code)` pairs written by `Messages.put` and
`Messages.erase`; this module reads them as finite maps through `Messages.get?`.

* `Messages.Same m m'`: the two lists answer every path alike;
* `Messages.Keyed m`: no path occurs twice, which every list the runner builds keeps;
* `Messages.putAll w m`: the entries of `w` written in order, and **`get?_putAll`**: a path reads
  its last write in `w`, or what it read before;
* `Messages.settle codes m`: every field's own code written, text set and anything else cleared,
  and **`get?_settle`**: a field reads its last code, any other path is left alone;
* **`putAll_map_same`**: copying two keyed maps that answer alike under an injective renaming of
  paths writes the same thing, whatever the order of their entries.
-/

namespace Schematic

namespace Messages

/-- Two message maps that answer every path alike. -/
def Same (m m' : List (String × String)) : Prop := ∀ k, get? k m = get? k m'

/-- A message map in which no path occurs twice. -/
def Keyed (m : List (String × String)) : Prop := (m.map (·.1)).Nodup

/-- A message map whose every code is non-empty text. -/
def Filled (m : List (String × String)) : Prop := ∀ e ∈ m, e.2 ≠ ""

/-- Writes the entries of `w` in order. -/
def putAll (w m : List (String × String)) : List (String × String) :=
  w.foldl (fun m e => put e.1 e.2 m) m

/-- Writes each field's code in order: a code that is text is set, anything else clears the
field. This is the last step of a context's run. -/
def settle (codes : List (String × Value)) (m : List (String × String)) :
    List (String × String) :=
  codes.foldl (fun m x => match Run.codeText x.2 with
    | some s => put x.1 s m
    | none => erase x.1 m) m

/-- The last entry of `w` written at path `k`. -/
def lastAt (k : String) (w : List (String × String)) : Option String :=
  (w.reverse.find? (·.1 = k)).map (·.2)

/-- The last code given to field `k`. -/
def lastCode (k : String) (codes : List (String × Value)) : Option Value :=
  (codes.reverse.find? (·.1 = k)).map (·.2)

namespace Same

@[refl] theorem refl (m : List (String × String)) : Same m m := fun _ => rfl

@[symm] theorem symm {m m' : List (String × String)} (h : Same m m') : Same m' m :=
  fun k => (h k).symm

@[trans] theorem trans {m m' m'' : List (String × String)} (h : Same m m') (h' : Same m' m'') :
    Same m m'' :=
  fun k => (h k).trans (h' k)

end Same

/-! ### Reading single writes -/

@[simp] theorem get?_nil (k : String) : get? k [] = none := rfl

theorem get?_cons (k : String) (e : String × String) (m : List (String × String)) :
    get? k (e :: m) = if e.1 = k then some e.2 else get? k m := by
  by_cases h : e.1 = k <;> simp [get?, h]

theorem get?_put (key code : String) (m : List (String × String)) (k : String) :
    get? k (put key code m) = if k = key then some code else get? k m := by
  induction m with
  | nil =>
    by_cases h : k = key
    · subst h
      simp [put, get?_cons]
    · simp [put, get?_cons, h, Ne.symm h]
  | cons e rest ih =>
    obtain ⟨k', c'⟩ := e
    by_cases hk : k' = key
    · subst hk
      by_cases h : k = k'
      · subst h
        simp [put, get?_cons]
      · simp [put, get?_cons, h, Ne.symm h]
    · simp only [put, hk, if_false, get?_cons, ih]
      by_cases h : k' = k
      · subst h
        simp [hk]
      · simp [h]

@[simp] theorem get?_put_self (key code : String) (m : List (String × String)) :
    get? key (put key code m) = some code := by
  simp [get?_put]

theorem get?_filter (p : String → Bool) (m : List (String × String)) (k : String) :
    get? k (m.filter fun e => p e.1) = if p k then get? k m else none := by
  induction m with
  | nil => simp
  | cons e rest ih =>
    rw [List.filter_cons]
    by_cases he : p e.1
    · rw [if_pos he, get?_cons, get?_cons, ih]
      by_cases h : e.1 = k
      · subst h
        simp [he]
      · simp [h]
    · rw [if_neg he, ih, get?_cons]
      by_cases h : e.1 = k
      · subst h
        simp [he]
      · simp [h]

theorem get?_erase (key : String) (m : List (String × String)) (k : String) :
    get? k (erase key m) = if k = key then none else get? k m := by
  rw [erase, get?_filter (fun k' => decide (k' ≠ key))]
  by_cases h : k = key <;> simp [h]

/-- A path is read from its first entry; the entry is a member of the map. -/
theorem mem_of_get? {k c : String} {m : List (String × String)} (h : get? k m = some c) :
    (k, c) ∈ m := by
  obtain ⟨e, he, rfl⟩ := Option.map_eq_some_iff.mp h
  have hmem := List.mem_of_find?_eq_some he
  have hk : e.1 = k := by simpa using List.find?_some he
  rw [← hk]
  exact hmem

theorem get?_of_mem {k c : String} {m : List (String × String)} (hm : Keyed m) (h : (k, c) ∈ m) :
    get? k m = some c := by
  induction m with
  | nil => cases h
  | cons e rest ih =>
    have hnd := List.nodup_cons.mp (show (e.1 :: rest.map (·.1)).Nodup from hm)
    rw [get?_cons]
    rcases List.mem_cons.mp h with rfl | hr
    · simp
    · have hne : e.1 ≠ k := fun he => hnd.1 (he ▸ List.mem_map_of_mem (f := (·.1)) hr)
      rw [if_neg hne]
      exact ih hnd.2 hr

/-! ### Writing in order -/

theorem putAll_cons (e : String × String) (w m : List (String × String)) :
    putAll (e :: w) m = putAll w (put e.1 e.2 m) := rfl

theorem putAll_append (w w' m : List (String × String)) :
    putAll (w ++ w') m = putAll w' (putAll w m) := by
  simp [putAll, List.foldl_append]

theorem lastAt_cons (k : String) (e : String × String) (w : List (String × String)) :
    lastAt k (e :: w) = (lastAt k w).or (if e.1 = k then some e.2 else none) := by
  by_cases h : e.1 = k <;> simp [lastAt, List.find?_append, h]

/-- A path reads its last write, or what it read before the writes. -/
theorem get?_putAll (w m : List (String × String)) (k : String) :
    get? k (putAll w m) = (lastAt k w).or (get? k m) := by
  induction w generalizing m with
  | nil => simp [putAll, lastAt]
  | cons e w ih =>
    rw [putAll_cons, ih, get?_put, lastAt_cons, Option.or_assoc]
    by_cases h : e.1 = k
    · simp [h]
    · simp [h, Ne.symm h]

theorem Same.putAll {m m' : List (String × String)} (h : Same m m') (w : List (String × String)) :
    Same (putAll w m) (putAll w m') := by
  intro k
  rw [get?_putAll, get?_putAll, h k]

theorem Same.put {m m' : List (String × String)} (h : Same m m') (key code : String) :
    Same (Messages.put key code m) (Messages.put key code m') := by
  intro k
  rw [get?_put, get?_put, h k]

/-! ### Settling the fields -/

theorem lastCode_cons (k : String) (x : String × Value) (codes : List (String × Value)) :
    lastCode k (x :: codes) = (lastCode k codes).or (if x.1 = k then some x.2 else none) := by
  by_cases h : x.1 = k <;> simp [lastCode, List.find?_append, h]

/-- A field reads the text of its last code; a path that is no field is left alone. -/
theorem get?_settle (codes : List (String × Value)) (m : List (String × String)) (k : String) :
    get? k (settle codes m) = match lastCode k codes with
      | some code => Run.codeText code
      | none => get? k m := by
  induction codes generalizing m with
  | nil => simp [settle, lastCode]
  | cons x codes ih =>
    have hstep : settle (x :: codes) m = settle codes (match Run.codeText x.2 with
        | some s => Messages.put x.1 s m
        | none => erase x.1 m) := rfl
    rw [hstep, ih, lastCode_cons]
    rcases hl : lastCode k codes with _ | code
    · by_cases h : x.1 = k
      · subst h
        cases hc : Run.codeText x.2 <;> simp [get?_erase, hc]
      · cases hc : Run.codeText x.2 <;> simp [get?_put, get?_erase, h, Ne.symm h]
    · rfl

theorem Same.settle {m m' : List (String × String)} (h : Same m m') (codes : List (String × Value)) :
    Same (Messages.settle codes m) (Messages.settle codes m') := by
  intro k
  rw [get?_settle, get?_settle]
  split
  · rfl
  · exact h k

/-- Settling every field forgets what the map held at the fields. -/
theorem settle_same_of_fields {codes : List (String × Value)} {m m' : List (String × String)}
    (h : ∀ k, k ∉ codes.map (·.1) → get? k m = get? k m') :
    Same (Messages.settle codes m) (Messages.settle codes m') := by
  intro k
  rw [get?_settle, get?_settle]
  rcases hl : lastCode k codes with _ | code
  · apply h
    intro hk
    obtain ⟨x, hx, rfl⟩ := List.mem_map.mp hk
    have : (codes.reverse.find? (·.1 = x.1)).isSome := by
      rw [List.find?_isSome]
      exact ⟨x, List.mem_reverse.mpr hx, by simp⟩
    simp [lastCode] at hl
    exact absurd hl (by simpa [Option.isSome_iff_ne_none] using this)
  · rfl

/-! ### Keyed maps -/

theorem Keyed.nil : Keyed [] := List.nodup_nil

theorem keys_put (key code : String) (m : List (String × String)) :
    (put key code m).map (·.1) = if key ∈ m.map (·.1) then m.map (·.1) else m.map (·.1) ++ [key] := by
  induction m with
  | nil => simp [put]
  | cons e rest ih =>
    obtain ⟨k', c'⟩ := e
    by_cases hk : k' = key
    · subst hk
      simp [put]
    · simp only [put, hk, if_false, List.map_cons, ih, List.mem_cons, Ne.symm hk, false_or]
      split <;> simp

theorem Keyed.put {m : List (String × String)} (hm : Keyed m) (key code : String) :
    Keyed (Messages.put key code m) := by
  unfold Keyed
  rw [keys_put]
  split
  · exact hm
  · rename_i hnot
    refine List.Nodup.append hm (List.nodup_singleton _) ?_
    simpa using hnot

theorem Keyed.filter {m : List (String × String)} (hm : Keyed m) (p : String × String → Bool) :
    Keyed (m.filter p) := by
  unfold Keyed at *
  exact (List.Nodup.filter p (List.Nodup.of_map _ hm)).map_on fun a ha b hb hab => by
    have ha' := List.mem_of_mem_filter ha
    have hb' := List.mem_of_mem_filter hb
    exact (List.inj_on_of_nodup_map hm) ha' hb' hab

theorem Keyed.erase {m : List (String × String)} (hm : Keyed m) (key : String) :
    Keyed (Messages.erase key m) :=
  hm.filter _

theorem Keyed.putAll {m : List (String × String)} (hm : Keyed m) (w : List (String × String)) :
    Keyed (Messages.putAll w m) := by
  induction w generalizing m with
  | nil => exact hm
  | cons e w ih => exact ih (hm.put e.1 e.2)

theorem Keyed.settle {m : List (String × String)} (hm : Keyed m) (codes : List (String × Value)) :
    Keyed (Messages.settle codes m) := by
  induction codes generalizing m with
  | nil => exact hm
  | cons x codes ih =>
    apply ih
    dsimp only
    split
    · exact hm.put _ _
    · exact hm.erase _

/-- Two keyed maps that answer alike hold the same entries, in some order. -/
theorem Keyed.perm {m m' : List (String × String)} (hp : m.Perm m') (hm : Keyed m) : Keyed m' :=
  (hp.map Prod.fst).nodup_iff.mp hm

theorem Same.perm {m m' : List (String × String)} (h : Same m m') (hm : Keyed m) (hm' : Keyed m') :
    m.Perm m' := by
  refine (List.perm_ext_iff_of_nodup (List.Nodup.of_map _ hm) (List.Nodup.of_map _ hm')).mpr ?_
  intro e
  constructor
  · intro he
    exact mem_of_get? ((h e.1).symm.trans (get?_of_mem hm he))
  · intro he
    exact mem_of_get? ((h e.1).trans (get?_of_mem hm' he))

theorem get?_perm {m m' : List (String × String)} (hp : m.Perm m') (hm : Keyed m) (k : String) :
    get? k m = get? k m' := by
  have hm' : Keyed m' := hm.perm hp
  rcases h : get? k m with _ | c
  · rcases h' : get? k m' with _ | c'
    · rfl
    · rw [get?_of_mem hm (hp.mem_iff.mpr (mem_of_get? h'))] at h
      cases h
  · exact (get?_of_mem hm' (hp.mem_iff.mp (mem_of_get? h))).symm

/-- In a keyed map the last write at a path is its only one. -/
theorem lastAt_of_keyed {w : List (String × String)} (hw : Keyed w) (k : String) :
    lastAt k w = get? k w := by
  have hrev : Keyed w.reverse := by
    unfold Keyed at *
    rw [List.map_reverse]
    exact List.nodup_reverse.mpr hw
  exact get?_perm (List.reverse_perm w) hrev k

/-- Writing the entries of a list with distinct paths does not depend on their order. -/
theorem putAll_perm {w w' : List (String × String)} (hp : w.Perm w') (hw : Keyed w)
    (m : List (String × String)) : Same (putAll w m) (putAll w' m) := by
  have hw' : Keyed w' := hw.perm hp
  intro k
  rw [get?_putAll, get?_putAll, lastAt_of_keyed hw, lastAt_of_keyed hw', get?_perm hp hw]

/-- Copying a keyed map under an injective renaming of its paths depends only on what the map
answers. -/
theorem putAll_map_same {f : String → String} (hf : Function.Injective f)
    {m m' : List (String × String)} (h : Same m m') (hm : Keyed m) (hm' : Keyed m')
    (n : List (String × String)) :
    Same (putAll (m.map fun e => (f e.1, e.2)) n) (putAll (m'.map fun e => (f e.1, e.2)) n) := by
  have hkeyed : Keyed (m.map fun e => (f e.1, e.2)) := by
    have hkeys : (m.map fun e => (f e.1, e.2)).map (·.1) = (m.map (·.1)).map f := by
      simp [List.map_map, Function.comp_def]
    unfold Keyed at *
    rw [hkeys]
    exact hm.map hf
  exact putAll_perm ((h.perm hm hm').map _) hkeyed n

/-- Two maps that answer alike are both empty or both not. -/
theorem Same.isEmpty_eq {m m' : List (String × String)} (h : Same m m') : m.isEmpty = m'.isEmpty := by
  -- a map with an entry answers at its path
  have hne : ∀ {n n' : List (String × String)}, Same n n' → n = [] → n' = [] := by
    intro n n' hs hn
    rcases n' with _ | ⟨e, rest⟩
    · rfl
    · have := hs e.1
      rw [hn, get?_nil, get?_cons, if_pos rfl] at this
      cases this
  rcases m with _ | ⟨e, rest⟩
  · rw [hne h rfl]
  · rcases m' with _ | ⟨e', rest'⟩
    · cases hne h.symm rfl
    · rfl

/-! ### Filled maps -/

theorem Filled.append {m m' : List (String × String)} (hm : Filled m) (hm' : Filled m') :
    Filled (m ++ m') := by
  intro e he
  rcases List.mem_append.mp he with he | he
  · exact hm e he
  · exact hm' e he

theorem Filled.put {m : List (String × String)} (hm : Filled m) {key code : String}
    (hc : code ≠ "") : Filled (Messages.put key code m) := by
  induction m with
  | nil => simpa [Messages.put, Filled] using hc
  | cons e rest ih =>
    have hrest : Filled rest := fun x hx => hm x (List.mem_cons_of_mem _ hx)
    unfold Messages.put
    split
    · intro x hx
      rcases List.mem_cons.mp hx with rfl | hx
      · exact hc
      · exact hrest x hx
    · intro x hx
      rcases List.mem_cons.mp hx with rfl | hx
      · exact hm _ List.mem_cons_self
      · exact ih hrest x hx

theorem Filled.erase {m : List (String × String)} (hm : Filled m) (key : String) :
    Filled (Messages.erase key m) :=
  fun x hx => hm x (List.mem_of_mem_filter hx)

theorem Filled.putAll {m w : List (String × String)} (hm : Filled m) (hw : Filled w) :
    Filled (Messages.putAll w m) := by
  induction w generalizing m with
  | nil => exact hm
  | cons e w ih =>
    exact ih (hm.put (hw e List.mem_cons_self)) fun x hx => hw x (List.mem_cons_of_mem _ hx)

/-- The text of a code is never empty. -/
theorem codeText_ne {code : Value} {text : String} (h : Run.codeText code = some text) :
    text ≠ "" := by
  unfold Run.codeText at h
  split at h
  · split at h
    · cases h
    · rename_i hne
      cases h
      simpa using hne
  · cases h

theorem Filled.settle {m : List (String × String)} (hm : Filled m) (codes : List (String × Value)) :
    Filled (Messages.settle codes m) := by
  induction codes generalizing m with
  | nil => exact hm
  | cons x codes ih =>
    apply ih
    dsimp only
    split
    · exact hm.put (codeText_ne ‹_›)
    · exact hm.erase _

/-- A keyed map answering like a filled one is filled. -/
theorem Filled.of_same {m m' : List (String × String)} (hm : Keyed m) (h : Same m m')
    (hm' : Filled m') : Filled m := by
  intro e he
  have hget : get? e.1 m' = some e.2 := (h e.1).symm.trans (get?_of_mem hm he)
  exact hm' _ (mem_of_get? hget)

end Messages

end Schematic
