import Mathlib
import Schematic.Proofs.Growth
import Schematic.Check.Run

/-!
# Sound schemas

Validating a mapping raises nothing but the recursion limit when the schema is *sound*:

* every field name is its own first dotted segment (`SafeName`: not empty, no dot), so that a
  nested message copied up under `field.i.sub` names the field it came from;
* every custom rule answers without raising (`RuleOk`);
* every bound can be compared with every value it bounds (`Comparable`);
* every lazy tag resolves, from any store the run may have grown, to a sound tag.

Soundness is hereditary through unions, arrays, nested schemas and lazy tags, which may refer
back to the schema itself; it is defined level by level (`NodeSoundAt n`, `SchemaSoundAt n`,
`TagSoundAt n`, each level looking one level further down, as a step-indexed relation is), and
a check, schema or tag is sound when it is sound at every level.

The main facts are that soundness survives the growth of the store (`NodeSound.mono`) and that
a check built from a sound tag is sound (`Store.Built.sound`).
-/

namespace Schematic

/-! ### Field names -/

/-- A field name that is its own first dotted segment: not empty, and without a dot. -/
def SafeName (name : String) : Prop := name ≠ "" ∧ '.' ∉ name.toList

instance (name : String) : Decidable (SafeName name) :=
  inferInstanceAs (Decidable (_ ∧ _))

namespace Context

open String in
/-- Splitting on a dot from a valid position, as `String.splitAux_of_valid` does for a
character predicate. -/
theorem splitOnAux_dot (l m r : List Char) (acc : List String) :
    splitOnAux (ofList (l ++ m ++ r)) "." ⟨utf8Len l⟩ ⟨utf8Len l + utf8Len m⟩ 0 acc =
      acc.reverse ++ (List.splitOnPPrepend (· == '.') r m.reverse).map ofList := by
  rw [splitOnAux]
  simp only [List.append_assoc, atEnd_iff, rawEndPos_ofList, utf8Len_append, Pos.Raw.mk_le_mk,
    Nat.add_le_add_iff_left, (by omega : utf8Len m + utf8Len r ≤ utf8Len m ↔ utf8Len r = 0),
    utf8Len_eq_zero]
  split
  · subst r
    simpa using extract_of_valid l m []
  · obtain ⟨c, r, rfl⟩ := r.exists_cons_of_ne_nil ‹_›
    have hget := get_of_valid (l ++ m) (c :: r)
    have hnext := next_of_valid (l ++ m) c r
    simp only [List.append_assoc, List.headD_cons, utf8Len_append] at hget hnext
    have hdot : Pos.Raw.get "." 0 = '.' := by decide
    have hsep : Pos.Raw.next "." 0 = ⟨1⟩ := by decide
    have hend : ".".rawEndPos ≤ ⟨1⟩ := by decide
    rw [hget, hdot, hsep, if_pos hend, Pos.Raw.unoffsetBy_zero, hnext]
    by_cases hc : c = '.'
    · -- a dot ends the segment `m`, and the next segment starts after it
      subst hc
      have hx := extract_of_valid l m ('.' :: r)
      simp only [List.append_assoc] at hx
      have hsize : '.'.utf8Size = 1 := by decide
      have hback : Pos.Raw.unoffsetBy ⟨utf8Len l + utf8Len m + '.'.utf8Size⟩ ⟨1⟩ =
          ⟨utf8Len l + utf8Len m⟩ := by
        simp [Pos.Raw.unoffsetBy, hsize]
      rw [if_pos (by simp), hback, hx]
      simpa [Nat.add_assoc, List.splitOnPPrepend_cons_eq_if, hsize] using
        splitOnAux_dot (l ++ m ++ ['.']) [] r (ofList m :: acc)
    · simpa [hc, Nat.add_assoc, List.splitOnPPrepend_cons_eq_if] using
        splitOnAux_dot l (m ++ [c]) r acc

/-- Splitting on a dot splits the characters at every dot. -/
theorem splitOn_dot (s : String) :
    s.splitOn "." = (s.toList.splitOnP (· == '.')).map String.ofList := by
  simpa [String.splitOn] using splitOnAux_dot [] [] s.toList []

/-- A name without a dot is the first segment of every path under it. -/
theorem head_append_dot {f : String} (hf : '.' ∉ f.toList) (sub : String) :
    head (f ++ "." ++ sub) = f := by
  have hnone : ∀ x ∈ f.toList, (x == '.') = false := by
    intro x hx
    simp only [beq_eq_false_iff_ne]
    rintro rfl
    exact hf hx
  have hsplit : (f.toList ++ '.' :: sub.toList).splitOnP (· == '.') =
      f.toList :: sub.toList.splitOnP (· == '.') :=
    List.splitOnP_append_cons_of_forall_mem hnone '.' (by decide) sub.toList
  simp [head, splitOn_dot, hsplit]

end Context

/-! ### Rules and bounds -/

/-- A custom rule that answers every value, from every store, without raising. -/
def RuleOk (rule : Value) : Prop := ∀ v (s : Store), ∃ o, ((Rule.callValue rule v).run.run s).1 = .ok o

/-- Bounds that can be compared with the measure of every value. -/
def Comparable (p : Primitive) (lo hi : Value) : Prop := ∀ v, ∃ c, p.boundedCode lo hi v = .ok c

/-! ### Soundness, level by level -/

mutual

/-- The check at handle `node` is sound to depth `n`. -/
def NodeSoundAt : Nat → Store → Nat → Prop
  | 0, _, _ => True
  | n + 1, s, node =>
    match s.checks[node]? with
    | none => False
    | some (.member _) | some .pass => True
    | some (.bounded p lo hi) => Comparable p lo hi
    | some (.union cs) => ∀ x ∈ cs, NodeSoundAt n s x.2
    | some (.array e _ _) => NodeSoundAt n s e
    | some (.nested sid owned _) =>
      (∃ c, s.contexts[owned]? = some c ∧ c.schema = sid) ∧ SchemaSoundAt n s sid
    | some (.lazy lid _ spec _ built) =>
      TagSoundAt n s spec (.lazy lid) ∧ ∀ b, built = some b → NodeSoundAt n s b
    | some (.custom inner r) => NodeSoundAt n s inner ∧ RuleOk r

/-- The schema `sid` is sound to depth `n`: its field names are safe, and each field's
validator is named after its field and has a sound check. -/
def SchemaSoundAt : Nat → Store → Nat → Prop
  | 0, _, _ => True
  | n + 1, s, sid => ∃ sch, s.schemas[sid]? = some sch ∧ ∀ f ∈ sch.fields,
      SafeName f.1 ∧ f.2.validator.field = some f.1 ∧ NodeSoundAt n s f.2.validator.check

/-- The tag `tag` declared with `spec` is sound to depth `n`: its objects exist, its bounds
are comparable, its candidates' rules answer, and a lazy tag resolves, from every store grown
from this one, to a sound tag. -/
def TagSoundAt : Nat → Store → Spec → Tag → Prop
  | 0, _, _, _ => True
  | _ + 1, _, spec, .primitive p => Comparable p spec.min spec.max
  | _ + 1, _, _, .any => True
  | n + 1, s, _, .anyOf id => ∃ u, s.unions[id]? = some u ∧ ∀ c ∈ u.candidates,
      TagSoundAt n s c c.type ∧ ∀ r, c.custom = some r → RuleOk r
  | n + 1, s, spec, .arrayOf id => ∃ a, s.arrays[id]? = some a ∧ TagSoundAt n s spec a.element
  | n + 1, s, _, .schema sid => SchemaSoundAt n s sid
  | n + 1, s, spec, .lazy lid => (∃ l, s.lazies[lid]? = some l) ∧ ∀ t, s.Grows t →
      ∃ tag u, (Run.resolveLazy lid).run.run t = (.ok tag, u) ∧ t.Grows u ∧ t.KeepsChecks u ∧
        TagSoundAt n u spec tag

end

/-- The check at `node` is sound at every depth. -/
def NodeSound (s : Store) (node : Nat) : Prop := ∀ n, NodeSoundAt n s node

/-- The schema `sid` is sound at every depth. -/
def SchemaSound (s : Store) (sid : Nat) : Prop := ∀ n, SchemaSoundAt n s sid

/-- The tag `tag` declared with `spec` is sound at every depth. -/
def TagSound (s : Store) (spec : Spec) (tag : Tag) : Prop := ∀ n, TagSoundAt n s spec tag


/-! ### Soundness, one level down -/

/-- What soundness asks of a check, in terms of the soundness of what it refers to. -/
def CheckSound (s : Store) : Check → Prop
  | .member _ | .pass => True
  | .bounded p lo hi => Comparable p lo hi
  | .union cs => ∀ x ∈ cs, NodeSound s x.2
  | .array e _ _ => NodeSound s e
  | .nested sid owned _ => (∃ c, s.contexts[owned]? = some c ∧ c.schema = sid) ∧ SchemaSound s sid
  | .lazy lid _ spec _ built => TagSound s spec (.lazy lid) ∧ ∀ b, built = some b → NodeSound s b
  | .custom inner r => NodeSound s inner ∧ RuleOk r

theorem nodeSound_iff {s : Store} {node : Nat} {c : Check} (hc : s.checks[node]? = some c) :
    NodeSound s node ↔ CheckSound s c := by
  constructor
  · intro h
    have hn : ∀ n, NodeSoundAt (n + 1) s node := fun n => h (n + 1)
    simp only [NodeSoundAt, hc] at hn
    cases c with
    | member => trivial
    | pass => trivial
    | bounded p lo hi => exact hn 0
    | union cs => exact fun x hx n => hn n x hx
    | array e lo hi => exact fun n => hn n
    | nested sid owned busy => exact ⟨(hn 0).1, fun n => (hn n).2⟩
    | lazy lid field spec owner built =>
      exact ⟨fun n => (hn n).1, fun b hb n => (hn n).2 b hb⟩
    | custom inner r => exact ⟨fun n => (hn n).1, (hn 0).2⟩
  · intro h n
    cases n with
    | zero => trivial
    | succ n =>
      simp only [NodeSoundAt, hc]
      cases c with
      | member => trivial
      | pass => trivial
      | bounded p lo hi => exact h
      | union cs => exact fun x hx => h x hx n
      | array e lo hi => exact h n
      | nested sid owned busy => exact ⟨h.1, h.2 n⟩
      | lazy lid field spec owner built => exact ⟨h.1 n, fun b hb => h.2 b hb n⟩
      | custom inner r => exact ⟨h.1 n, h.2⟩

/-- A sound check exists. -/
theorem NodeSound.exists {s : Store} {node : Nat} (h : NodeSound s node) :
    ∃ c, s.checks[node]? = some c ∧ CheckSound s c := by
  have h1 := h 1
  simp only [NodeSoundAt] at h1
  split at h1
  · exact h1.elim
  · exact ⟨_, ‹_›, (nodeSound_iff ‹_›).mp h⟩
  all_goals exact ⟨_, ‹_›, (nodeSound_iff ‹_›).mp h⟩

theorem schemaSound_iff {s : Store} {sid : Nat} :
    SchemaSound s sid ↔ ∃ sch, s.schemas[sid]? = some sch ∧ ∀ f ∈ sch.fields,
      SafeName f.1 ∧ f.2.validator.field = some f.1 ∧ NodeSound s f.2.validator.check := by
  constructor
  · intro h
    obtain ⟨sch, hsch, -⟩ := h 1
    refine ⟨sch, hsch, fun f hf => ?_⟩
    have hn : ∀ n, SafeName f.1 ∧ f.2.validator.field = some f.1 ∧
        NodeSoundAt n s f.2.validator.check := by
      intro n
      obtain ⟨sch', hsch', hfs⟩ := h (n + 1)
      rw [hsch] at hsch'
      cases hsch'
      exact hfs f hf
    exact ⟨(hn 0).1, (hn 0).2.1, fun n => (hn n).2.2⟩
  · rintro ⟨sch, hsch, hfs⟩ n
    cases n with
    | zero => trivial
    | succ n =>
      exact ⟨sch, hsch, fun f hf => ⟨(hfs f hf).1, (hfs f hf).2.1, (hfs f hf).2.2 n⟩⟩

theorem tagSound_primitive {s : Store} {spec : Spec} {p : Primitive} :
    TagSound s spec (.primitive p) ↔ Comparable p spec.min spec.max :=
  ⟨fun h => h 1, fun h n => by cases n with | zero => trivial | succ n => exact h⟩

theorem tagSound_schema {s : Store} {spec : Spec} {sid : Nat} :
    TagSound s spec (.schema sid) ↔ SchemaSound s sid :=
  ⟨fun h n => h (n + 1), fun h n => by cases n with | zero => trivial | succ n => exact h n⟩

theorem tagSound_anyOf {s : Store} {spec : Spec} {id : Nat} :
    TagSound s spec (.anyOf id) ↔ ∃ u, s.unions[id]? = some u ∧ ∀ c ∈ u.candidates,
      TagSound s c c.type ∧ ∀ r, c.custom = some r → RuleOk r := by
  constructor
  · intro h
    obtain ⟨u, hu, -⟩ := h 1
    -- the union at `id` is the same at every level
    have hlevel : ∀ n, ∀ c ∈ u.candidates,
        TagSoundAt n s c c.type ∧ ∀ r, c.custom = some r → RuleOk r := by
      intro n c hc
      obtain ⟨u', hu', hcs⟩ := h (n + 1)
      rw [hu] at hu'
      cases hu'
      exact hcs c hc
    exact ⟨u, hu, fun c hc => ⟨fun n => (hlevel n c hc).1, (hlevel 0 c hc).2⟩⟩
  · rintro ⟨u, hu, hcs⟩ n
    cases n with
    | zero => trivial
    | succ n => exact ⟨u, hu, fun c hc => ⟨(hcs c hc).1 n, (hcs c hc).2⟩⟩

theorem tagSound_arrayOf {s : Store} {spec : Spec} {id : Nat} :
    TagSound s spec (.arrayOf id) ↔ ∃ a, s.arrays[id]? = some a ∧ TagSound s spec a.element := by
  constructor
  · intro h
    obtain ⟨a, ha, -⟩ := h 1
    refine ⟨a, ha, fun n => ?_⟩
    obtain ⟨a', ha', he⟩ := h (n + 1)
    rw [ha] at ha'
    cases ha'
    exact he
  · rintro ⟨a, ha, he⟩ n
    cases n with
    | zero => trivial
    | succ n => exact ⟨a, ha, he n⟩

theorem tagSound_lazy {s : Store} {spec : Spec} {lid : Nat} :
    TagSound s spec (.lazy lid) ↔ (∃ l, s.lazies[lid]? = some l) ∧ ∀ t, s.Grows t →
      ∃ tag u, (Run.resolveLazy lid).run.run t = (.ok tag, u) ∧ t.Grows u ∧ t.KeepsChecks u ∧
        TagSound u spec tag := by
  constructor
  · intro h
    refine ⟨(h 1).1, fun t ht => ?_⟩
    -- resolving is a function of the store, so every level sees the same tag and store
    obtain ⟨tag, u, hrun, htu, hkeep, -⟩ := (h 1).2 t ht
    refine ⟨tag, u, hrun, htu, hkeep, fun n => ?_⟩
    obtain ⟨tag', u', hrun', -, -, hn⟩ := (h (n + 1)).2 t ht
    rw [hrun] at hrun'
    cases hrun'
    exact hn
  · rintro ⟨hl, hres⟩ n
    cases n with
    | zero => trivial
    | succ n =>
      refine ⟨hl, fun t ht => ?_⟩
      obtain ⟨tag, u, hrun, htu, hkeep, hsound⟩ := hres t ht
      exact ⟨tag, u, hrun, htu, hkeep, hsound n⟩


/-- A resolved lazy tag resolves to its target and leaves the store as it was. -/
theorem Run.resolveLazy_resolved {s : Store} {lid : Nat} {l : LazyTag} {tag : Tag}
    (hl : s.lazies[lid]? = some l) (ht : l.target = some tag) :
    (Run.resolveLazy lid).run.run s = (.ok tag, s) := by
  have hat : Store.at! s.lazies lid = l := by simp [Store.at!, hl]
  unfold Run.resolveLazy
  rw [Run.run_bind]
  simp only [Store.run_lazyTag, hat, ht]
  rfl

theorem exists_zip_of_mem {α β : Type} {us : List α} {cs : List β} {x : β}
    (hlen : cs.length = us.length) (hx : x ∈ cs) : ∃ c, (c, x) ∈ us.zip cs := by
  induction cs generalizing us with
  | nil => simp at hx
  | cons y cs ih =>
    cases us with
    | nil => simp at hlen
    | cons u us =>
      rcases List.mem_cons.mp hx with rfl | hx
      · exact ⟨u, by simp⟩
      · obtain ⟨c, hc⟩ := ih (by simpa using hlen) hx
        exact ⟨c, by simp [hc]⟩

/-- **A check built from a sound tag is sound.** -/
theorem Store.Built.sound {s : Store} {k b spec rule tag} (h : s.Built k b spec rule tag) :
    TagSound s spec tag → (∀ r, rule = some r → RuleOk r) → NodeSound s b := by
  induction h with
  | member h _ => exact fun _ _ => (nodeSound_iff h).mpr trivial
  | bounded h _ => exact fun htag _ => (nodeSound_iff h).mpr (tagSound_primitive.mp htag)
  | pass h _ => exact fun _ _ => (nodeSound_iff h).mpr trivial
  | union h _ hu hlen _ ih =>
    intro htag _
    obtain ⟨u', hu', hcs⟩ := tagSound_anyOf.mp htag
    rw [hu] at hu'
    cases hu'
    refine (nodeSound_iff h).mpr fun x hx => ?_
    obtain ⟨c, hc⟩ := exists_zip_of_mem hlen hx
    have hcmem := (List.of_mem_zip hc).1
    exact ih _ hc (hcs c hcmem).1 (hcs c hcmem).2
  | array h _ ha _ ih =>
    intro htag _
    obtain ⟨a', ha', hel⟩ := tagSound_arrayOf.mp htag
    rw [ha] at ha'
    cases ha'
    exact (nodeSound_iff h).mpr (ih hel (by simp))
  | nested h _ howned =>
    exact fun htag _ => (nodeSound_iff h).mpr ⟨howned, tagSound_schema.mp htag⟩
  | lazy h _ => exact fun htag _ => (nodeSound_iff h).mpr ⟨htag, by simp⟩
  | lazyBuilt h _ hl ht _ ih =>
    intro htag _
    -- the target the lazy tag resolved to is sound, so the check built for it is
    obtain ⟨tag', u, hrun, -, -, hsound⟩ := (tagSound_lazy.mp htag).2 s (Store.Grows.refl s)
    rw [Run.resolveLazy_resolved hl ht] at hrun
    cases hrun
    refine (nodeSound_iff h).mpr ⟨htag, fun b hb => ?_⟩
    cases hb
    exact ih hsound (by simp)
  | custom h _ _ ih =>
    exact fun htag hrule => (nodeSound_iff h).mpr ⟨ih htag (by simp), hrule _ rfl⟩

/-- **Soundness survives the growth of the store**, level by level: a check a lazy check built
meanwhile is built from the tag its lazy tag resolved to, which is sound. -/
theorem soundAt_of_grows {s t : Store} (hg : s.Grows t) (n : Nat) :
    (∀ node, NodeSound s node → NodeSoundAt n t node) ∧
    (∀ sid, SchemaSound s sid → SchemaSoundAt n t sid) ∧
    (∀ spec tag, TagSound s spec tag → TagSoundAt n t spec tag) := by
  induction n with
  | zero => exact ⟨fun _ _ => trivial, fun _ _ => trivial, fun _ _ _ => trivial⟩
  | succ n ih =>
    obtain ⟨ihn, ihs, iht⟩ := ih
    refine ⟨fun node hnode => ?_, fun sid hsid => ?_, fun spec tag htag => ?_⟩
    · obtain ⟨c, hc, hcs⟩ := hnode.exists
      obtain ⟨c', hc', href⟩ := hg.checks node c hc
      cases c with
      | member p =>
        obtain rfl : c' = .member p := href
        simp only [NodeSoundAt, hc']
      | bounded p lo hi =>
        obtain rfl : c' = .bounded p lo hi := href
        simp only [NodeSoundAt, hc']
        exact hcs
      | pass =>
        obtain rfl : c' = .pass := href
        simp only [NodeSoundAt, hc']
      | union cs =>
        obtain rfl : c' = .union cs := href
        simp only [NodeSoundAt, hc']
        exact fun x hx => ihn x.2 (hcs x hx)
      | array e lo hi =>
        obtain rfl : c' = .array e lo hi := href
        simp only [NodeSoundAt, hc']
        exact ihn e hcs
      | nested sid owned busy =>
        obtain ⟨busy', rfl⟩ := href
        obtain ⟨⟨cx, hcx, hsch⟩, hsid⟩ := hcs
        obtain ⟨cx', hcx', hsch'⟩ := hg.contexts owned cx hcx
        simp only [NodeSoundAt, hc']
        exact ⟨⟨cx', hcx', hsch'.trans hsch⟩, ihs sid hsid⟩
      | lazy lid field spec owner built =>
        obtain ⟨hlazy, hbuilt⟩ := hcs
        cases built with
        | none =>
          obtain ⟨built', rfl⟩ := href
          simp only [NodeSoundAt, hc']
          refine ⟨iht _ _ hlazy, fun b hb => ?_⟩
          subst hb
          obtain ⟨l, tt, k, hl, htt, -, hbt⟩ := hg.built node lid field spec owner b hc hc'
          obtain ⟨tag, u, hrun, -, -, hsound⟩ := (tagSound_lazy.mp hlazy).2 t hg
          rw [Run.resolveLazy_resolved hl htt] at hrun
          cases hrun
          exact hbt.sound hsound (by simp) n
        | some b =>
          obtain rfl : c' = .lazy lid field spec owner (some b) := href
          simp only [NodeSoundAt, hc']
          exact ⟨iht _ _ hlazy, fun b' hb' => ihn b' (hbuilt b' hb')⟩
      | custom inner r =>
        obtain rfl : c' = .custom inner r := href
        simp only [NodeSoundAt, hc']
        exact ⟨ihn inner hcs.1, hcs.2⟩
    · obtain ⟨sch, hsch, hfs⟩ := schemaSound_iff.mp hsid
      exact ⟨sch, hg.schemas sid sch hsch,
        fun f hf => ⟨(hfs f hf).1, (hfs f hf).2.1, ihn _ (hfs f hf).2.2⟩⟩
    · cases tag with
      | primitive p => exact tagSound_primitive.mp htag
      | any => trivial
      | anyOf id =>
        obtain ⟨u, hu, hcs⟩ := tagSound_anyOf.mp htag
        exact ⟨u, hg.unions id u hu, fun c hc => ⟨iht _ _ (hcs c hc).1, (hcs c hc).2⟩⟩
      | arrayOf id =>
        obtain ⟨a, ha, he⟩ := tagSound_arrayOf.mp htag
        exact ⟨a, hg.arrays id a ha, iht _ _ he⟩
      | schema sid => exact ihs sid (tagSound_schema.mp htag)
      | lazy lid =>
        obtain ⟨⟨l, hl⟩, hres⟩ := tagSound_lazy.mp htag
        obtain ⟨l', hl', -⟩ := hg.lazies lid l hl
        refine ⟨⟨l', hl'⟩, fun t' ht' => ?_⟩
        obtain ⟨tag, u, hrun, htu, hkeep, hsound⟩ := hres t' (hg.trans ht')
        exact ⟨tag, u, hrun, htu, hkeep, hsound n⟩

theorem NodeSound.mono {s t : Store} (hg : s.Grows t) {node : Nat} (h : NodeSound s node) :
    NodeSound t node := fun n => (soundAt_of_grows hg n).1 node h

theorem SchemaSound.mono {s t : Store} (hg : s.Grows t) {sid : Nat} (h : SchemaSound s sid) :
    SchemaSound t sid := fun n => (soundAt_of_grows hg n).2.1 sid h

theorem TagSound.mono {s t : Store} (hg : s.Grows t) {spec : Spec} {tag : Tag}
    (h : TagSound s spec tag) : TagSound t spec tag := fun n => (soundAt_of_grows hg n).2.2 spec tag h

end Schematic
