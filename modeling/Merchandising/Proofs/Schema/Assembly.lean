/-
  The fields that are left of some declarations, and the places where they are found.

  * `Assembly.Indexed` says that a name has a place iff there is a field of that name, and that it is
    the place of this field;
  * `Indexed.declare_cases` is all that one more declaration does, `Indexed.declare` that it keeps
    places right; so they are right all along (`indexed_ofDeclarations`);
  * `mem_assemble` and `names_assemble`: of every name the last declaration is left, at the place of
    the first one;
  * `Schema.Assembled` is a schema whose fields are what is left of some declarations, and are found
    by their names;
  * `Declarations.compile_assembles`: so is every compiled schema, and compiling fails iff no source
    declares the id field.
-/
import Mathlib.Data.List.Induction
import Mathlib.Data.List.Nodup
import Merchandising.Schema.Basic

namespace Merchandising

/-! ## One more declaration -/

namespace Assembly

/-- A name has a place iff there is a field of that name, and then it is the place of this field. -/
def Indexed (a : Assembly) : Prop :=
  ∀ name i, a.places.get? name = some i ↔ ∃ f, a.fields[i]? = some f ∧ f.name = name

theorem indexed_empty : empty.Indexed := by
  intro name i
  simp [empty, KeyedMap.get?, KeyedMap.empty]

section
variable {a : Assembly} (h : a.Indexed)
include h

theorem Indexed.exists_place {f : Field} (hf : f ∈ a.fields) :
    ∃ i, a.fields[i]? = some f ∧ a.places.get? f.name = some i := by
  obtain ⟨i, hi⟩ := List.mem_iff_getElem?.1 hf
  exact ⟨i, hi, (h _ _).2 ⟨f, hi, rfl⟩⟩

/-- No two places have fields of one name. -/
theorem Indexed.eq_of_name {i j : Nat} {f g : Field} (hi : a.fields[i]? = some f)
    (hj : a.fields[j]? = some g) (hname : f.name = g.name) : i = j := by
  have hplace := (h g.name i).2 ⟨f, hi, hname⟩
  rw [(h g.name j).2 ⟨g, hj, rfl⟩] at hplace
  exact (Option.some.inj hplace).symm

theorem Indexed.nodup_names : (a.fields.map Field.name).Nodup := by
  refine List.nodup_iff_getElem?_ne_getElem?.2 fun i j hij hj heq => ?_
  simp only [List.getElem?_map] at heq
  have hj : j < a.fields.length := by simpa using hj
  rw [List.getElem?_eq_getElem hj, Option.map_some, Option.map_eq_some_iff] at heq
  obtain ⟨f, hi, hname⟩ := heq
  have := h.eq_of_name hi (List.getElem?_eq_getElem hj) hname
  omega

/-- One more declaration takes the place of the field of its name, or comes last as there is none. -/
theorem Indexed.declare_cases (f : Field) :
    (∃ i g, a.fields[i]? = some g ∧ g.name = f.name ∧
        a.declare f = ⟨a.fields.set i f, a.places⟩) ∨
      (∀ g ∈ a.fields, g.name ≠ f.name) ∧
        a.declare f = ⟨a.fields ++ [f], a.places.insert f.name a.fields.length⟩ := by
  unfold declare
  cases hplace : a.places.get? f.name with
  | some i =>
    obtain ⟨g, hg, hname⟩ := (h _ _).1 hplace
    exact Or.inl ⟨i, g, hg, hname, rfl⟩
  | none =>
    refine Or.inr ⟨fun g hg hname => ?_, rfl⟩
    obtain ⟨i, -, hi⟩ := h.exists_place hg
    rw [hname, hplace] at hi
    cases hi

/-- One more declaration keeps places right. -/
theorem Indexed.declare (f : Field) : (a.declare f).Indexed := by
  intro name j
  rcases h.declare_cases f with ⟨i, g, hg, hname, heq⟩ | ⟨hnew, heq⟩
  -- The field at the place `i` changes, but not its name.
  · rw [heq, h name j]
    by_cases hij : i = j
    · subst hij
      rw [List.getElem?_set_self (List.getElem?_eq_some_iff.1 hg).1, hg]
      simp [hname]
    · rw [List.getElem?_set_ne hij]
  -- No field before the last one has the name that gets a place.
  · rw [heq, KeyedMap.get?_insert]
    constructor
    · intro hj
      split at hj
      · rename_i hname
        obtain rfl := Option.some.inj hj
        exact ⟨f, List.getElem?_concat_length, hname.symm⟩
      · obtain ⟨g, hg, hname⟩ := (h name j).1 hj
        have hj' := (List.getElem?_eq_some_iff.1 hg).1
        exact ⟨g, (List.getElem?_append_left hj').trans hg, hname⟩
    · rintro ⟨g, hg, rfl⟩
      rw [List.getElem?_append, List.getElem?_singleton] at hg
      split at hg
      · rw [if_neg (hnew g (List.mem_of_getElem? hg))]
        exact (h _ _).2 ⟨g, hg, rfl⟩
      · split at hg
        · obtain rfl := Option.some.inj hg
          rw [if_pos rfl, show j = a.fields.length by omega]
        · cases hg

/-- A name that is declared again stays where it is, and a new one comes last. -/
theorem Indexed.names_declare (f : Field) :
    (a.declare f).fields.map Field.name =
      if f.name ∈ a.fields.map Field.name then a.fields.map Field.name
      else a.fields.map Field.name ++ [f.name] := by
  rcases h.declare_cases f with ⟨i, g, hg, hname, heq⟩ | ⟨hnew, heq⟩
  · rw [heq, if_pos (List.mem_map.2 ⟨g, List.mem_of_getElem? hg, hname⟩), List.map_set]
    obtain ⟨hi, rfl⟩ := List.getElem?_eq_some_iff.1 hg
    have hi' : i < (a.fields.map Field.name).length := by simpa using hi
    have hsame : (a.fields.map Field.name)[i] = f.name := by rw [List.getElem_map, hname]
    rw [← hsame, List.set_getElem_self]
  · have hnot : f.name ∉ a.fields.map Field.name := by simpa using hnew
    rw [heq, if_neg hnot, List.map_append]
    rfl

/-- A declaration replaces the field of its name and no other one. -/
theorem Indexed.mem_declare {f g : Field} :
    g ∈ (a.declare f).fields ↔ g = f ∨ g ∈ a.fields ∧ g.name ≠ f.name := by
  rcases h.declare_cases f with ⟨i, old, hold, hname, heq⟩ | ⟨hnew, heq⟩
  · have hi := (List.getElem?_eq_some_iff.1 hold).1
    rw [heq, List.mem_iff_getElem?]
    constructor
    · rintro ⟨j, hj⟩
      by_cases hij : i = j
      · rw [← hij, List.getElem?_set_self hi] at hj
        exact Or.inl (Option.some.inj hj).symm
      · rw [List.getElem?_set_ne hij] at hj
        refine Or.inr ⟨List.mem_of_getElem? hj, fun hsame => hij ?_⟩
        exact h.eq_of_name hold hj (hname.trans hsame.symm)
    · rintro (rfl | ⟨hg, hne⟩)
      · exact ⟨i, List.getElem?_set_self hi⟩
      · obtain ⟨j, hj, -⟩ := h.exists_place hg
        refine ⟨j, (List.getElem?_set_ne fun hij => hne ?_).trans hj⟩
        rw [← hij, hold] at hj
        exact Option.some.inj hj ▸ hname
  · rw [heq, List.mem_append, List.mem_singleton]
    constructor
    · rintro (hg | rfl)
      · exact Or.inr ⟨hg, hnew g hg⟩
      · exact Or.inl rfl
    · rintro (rfl | ⟨hg, -⟩)
      · exact Or.inr rfl
      · exact Or.inl hg

end

/-! ## All declarations -/

theorem ofDeclarations_concat (declarations : List Field) (f : Field) :
    ofDeclarations (declarations ++ [f]) = (ofDeclarations declarations).declare f := by
  simp [ofDeclarations]

/-- Places are right after any declarations. -/
theorem indexed_ofDeclarations (declarations : List Field) : (ofDeclarations declarations).Indexed := by
  induction declarations using List.reverseRecOn with
  | nil => exact indexed_empty
  | append_singleton ds f ih =>
    rw [ofDeclarations_concat]
    exact ih.declare f

end Assembly

namespace Declarations

/-- The last declaration of a name. -/
def lastDeclaration (declarations : List Field) (name : String) : Option Field :=
  (declarations.filter (·.name == name)).getLast?

/-- Of every name the last declaration is left. -/
theorem mem_assemble {declarations : List Field} {f : Field} :
    f ∈ assemble declarations ↔ lastDeclaration declarations f.name = some f := by
  unfold assemble lastDeclaration
  induction declarations using List.reverseRecOn with
  | nil => simp [Assembly.ofDeclarations, Assembly.empty]
  | append_singleton ds g ih =>
    rw [Assembly.ofDeclarations_concat, (Assembly.indexed_ofDeclarations ds).mem_declare, ih,
      List.filter_append, List.getLast?_append]
    by_cases hname : g.name = f.name
    · simp [hname, eq_comm]
    · have hne : f ≠ g := fun h => hname (h ▸ rfl)
      simp [hname, hne, Ne.symm hname]

/-- The names are in the order in which they were declared first, each once. -/
theorem names_assemble (declarations : List Field) :
    (assemble declarations).map Field.name = (declarations.map Field.name).eraseDups ∧
      ((assemble declarations).map Field.name).Nodup := by
  refine ⟨?_, (Assembly.indexed_ofDeclarations declarations).nodup_names⟩
  unfold assemble
  induction declarations using List.reverseRecOn with
  | nil => rfl
  | append_singleton ds g ih =>
    rw [Assembly.ofDeclarations_concat, (Assembly.indexed_ofDeclarations ds).names_declare, ih,
      List.map_append, List.eraseDups_append]
    by_cases hname : g.name ∈ ds.map Field.name
    · have hnone : ([g].map Field.name).removeAll (ds.map Field.name) = [] := by
        simpa [List.removeAll] using hname
      rw [if_pos (List.mem_eraseDups.2 hname), hnone, List.eraseDups_nil, List.append_nil]
    · have hone : ([g].map Field.name).removeAll (ds.map Field.name) = [g.name] := by
        simpa [List.removeAll] using hname
      rw [if_neg (mt List.mem_eraseDups.1 hname), hone]
      rfl

/-- A name has a place iff a field of this name was declared. -/
theorem isSome_place {declarations : List Field} {name : String} :
    ((Assembly.ofDeclarations declarations).places.get? name).isSome = true ↔
      ∃ f ∈ declarations, f.name = name := by
  have hmem : name ∈ (assemble declarations).map Field.name ↔ name ∈ declarations.map Field.name := by
    rw [(names_assemble declarations).1, List.mem_eraseDups]
  have h := Assembly.indexed_ofDeclarations declarations
  rw [← List.mem_map, ← hmem, List.mem_map, Option.isSome_iff_exists]
  constructor
  · rintro ⟨i, hi⟩
    obtain ⟨f, hf, hname⟩ := (h name i).1 hi
    exact ⟨f, List.mem_of_getElem? hf, hname⟩
  · rintro ⟨f, hf, rfl⟩
    obtain ⟨i, -, hi⟩ := h.exists_place hf
    exact ⟨i, hi⟩

end Declarations

/-! ## Compiled schemas -/

/-- A schema whose fields are what is left of some declarations, and are found by their names. -/
structure Schema.Assembled (s : Schema) (declarations : List Field) : Prop where
  distinct : (s.fields.map Field.name).Nodup
  /-- The names are in the order in which they were declared first. -/
  ordered : s.fields.map Field.name = (declarations.map Field.name).eraseDups
  last : ∀ f, f ∈ s.fields ↔ Declarations.lastDeclaration declarations f.name = some f
  /-- A name has the place of its field and no other one, and no place without a field. -/
  placed : ∀ name i, s.places.get? name = some i ↔ ∃ f, s.fields[i]? = some f ∧ f.name = name
  found : ∀ name f, s.field? name = some f ↔ f ∈ s.fields ∧ f.name = name

/-- If places are right, the field at the place of a name is the field of that name. -/
theorem Schema.field?_eq_some {s : Schema} (h : Assembly.Indexed ⟨s.fields, s.places⟩)
    {name : String} {f : Field} : s.field? name = some f ↔ f ∈ s.fields ∧ f.name = name := by
  rw [field?, Option.bind_eq_some_iff]
  constructor
  · rintro ⟨i, hi, hf⟩
    obtain ⟨g, hg, hname⟩ := (h name i).1 hi
    obtain rfl := Option.some.inj (hg.symm.trans hf)
    exact ⟨List.mem_of_getElem? hf, hname⟩
  · rintro ⟨hf, rfl⟩
    obtain ⟨i, hi, hplace⟩ := h.exists_place hf
    exact ⟨i, hplace, hi⟩

namespace Declarations

variable (d : Declarations)

/-- The schema of declarations, whether or not a field is the id field. -/
def schema : Schema :=
  ⟨d.idField, d.mapping, assemble d.fields, (Assembly.ofDeclarations d.fields).places, d.composites⟩

theorem compile_eq_ok {s : Schema} (hs : d.compile = .ok s) : s = d.schema := by
  simp only [compile] at hs
  split at hs
  · exact (Except.ok.inj hs).symm
  · cases hs

theorem compile_of_declared (h : ∃ f ∈ d.fields, f.name = d.idField) :
    d.compile = .ok d.schema :=
  if_pos (isSome_place.2 h)

theorem compile_of_undeclared (h : ¬ ∃ f ∈ d.fields, f.name = d.idField) :
    d.compile = .error (.unknownIdField d.idField) :=
  if_neg (mt isSome_place.1 h)

theorem indexed_schema : Assembly.Indexed ⟨d.schema.fields, d.schema.places⟩ :=
  Assembly.indexed_ofDeclarations d.fields

theorem assembled_schema : d.schema.Assembled d.fields where
  distinct := (names_assemble d.fields).2
  ordered := (names_assemble d.fields).1
  last _ := mem_assemble
  placed := d.indexed_schema
  found _ _ := Schema.field?_eq_some d.indexed_schema

/-- **Fields are put together in place, and found by their names.**  Compiling fails iff neither a
    static field nor one of a provider is the id field; otherwise the fields are the last
    declarations of their names, each once and in the order of the first ones, and a name has the
    place of its field, so that no place is out of range.  Places are right after any number of
    declarations, so what is declared again is replaced where it is. -/
theorem compile_assembles (composites : List Composite) (idField : String) (static : List Field)
    (providers : List (List Field)) :
    let declarations := static ++ providers.flatten
    let d : Declarations := ⟨composites, idField, declarations⟩
    (∀ e, d.compile = .error e ↔
        e = .unknownIdField idField ∧ ∀ f ∈ declarations, f.name ≠ idField) ∧
      ((∃ f ∈ declarations, f.name = idField) →
        ∃ s, d.compile = .ok s ∧ s.Assembled declarations) ∧
      ∀ n, (Assembly.ofDeclarations (declarations.take n)).Indexed := by
  intro declarations d
  refine ⟨fun e => ?_, fun hid => ⟨d.schema, d.compile_of_declared hid, d.assembled_schema⟩,
    fun n => Assembly.indexed_ofDeclarations _⟩
  constructor
  · intro he
    have hid : ¬ ∃ f ∈ declarations, f.name = idField := by
      intro hid
      rw [d.compile_of_declared hid] at he
      cases he
    rw [d.compile_of_undeclared hid] at he
    exact ⟨(Except.error.inj he).symm, fun f hf hname => hid ⟨f, hf, hname⟩⟩
  · rintro ⟨rfl, hid⟩
    exact d.compile_of_undeclared fun ⟨f, hf, hname⟩ => hid f hf hname

/-- A provider declares the name again, which stays where it was, and a second one the color of the
    first one. -/
theorem compile_assembles_redeclared :
    let name := (Field.plain "name" .text).withWeight 10.0
    let static : List Field := [.plain "sku" .keyword, .plain "name" .text, .plain "price" .double]
    let providers : List (List Field) := [[name, .plain "color" .text], [.plain "color" .keyword]]
    ∃ s, compile ⟨Composite.standard, "sku", static ++ providers.flatten⟩ = .ok s ∧
      s.fields.map Field.name = ["sku", "name", "price", "color"] ∧ s.places.get? "name" = some 1 ∧
      s.field? "name" = some name ∧ s.field? "color" = some (.plain "color" .keyword) ∧
      s.field? "weight" = none := by
  intro name static providers
  obtain ⟨-, hcompiled, -⟩ := compile_assembles Composite.standard "sku" static providers
  obtain ⟨s, hs, h⟩ := hcompiled ⟨.plain "sku" .keyword, List.mem_cons_self, rfl⟩
  have hnames : s.fields.map Field.name = ["sku", "name", "price", "color"] := h.ordered
  refine ⟨s, hs, hnames, ?_, (h.found _ _).2 ⟨(h.last _).2 rfl, rfl⟩,
    (h.found _ _).2 ⟨(h.last _).2 rfl, rfl⟩, ?_⟩
  · have hsecond : (s.fields.map Field.name)[1]? = some "name" := by rw [hnames]; rfl
    rw [List.getElem?_map, Option.map_eq_some_iff] at hsecond
    exact (h.placed _ _).2 hsecond
  · refine Option.eq_none_iff_forall_ne_some.2 fun f hf => ?_
    obtain ⟨hmem, hname⟩ := (h.found _ _).1 hf
    have hlisted : f.name ∈ ["sku", "name", "price", "color"] := hnames ▸ List.mem_map_of_mem hmem
    exact absurd (hname ▸ hlisted) (by decide)

end Declarations

end Merchandising
