/-
  Which properties a full-text search looks at, and what they weigh.

  * `WeightRequest.Eligible` are the fields that take part in a search, and `WeightRequest.Maps`
    says as which property;
  * `WeightRequest.Weighs` is what a property weighs: what the last field says that takes part as
    this property, or the boost alone if only the cross-field is this property;
  * `get?_addWeight` and `get?_foldl_addWeight`: that is what is found after one more field, and
    after all of them;
  * `Schema.Weighed` is the judgment on a request, with its three failures, and `weights_eq_iff`: it
    is what the weights come to;
  * `Field.StandsAlone` are the fields that a search in full text looks at besides the cross-field;
  * `Declarations.weights_exact`: the weights of a compiled schema are what the judgment says, and
    so are those that a search in full text looks at.
-/
import Merchandising.Proofs.LastWith
import Merchandising.Proofs.Schema.Provided
import Merchandising.Rule.Fulltext

namespace Merchandising

/-- Maps that find the same are equal. -/
theorem KeyedMap.ext_get? {β : Type} {m n : KeyedMap β} (h : ∀ k, m.get? k = n.get? k) : m = n := by
  have hmem : ∀ e : String × β, e ∈ m.entries ↔ e ∈ n.entries := by
    rintro ⟨k, v⟩
    rw [Keyed.mem_iff_lookup m.sorted, Keyed.mem_iff_lookup n.sorted]
    exact Eq.congr_left (h k)
  have hnodup : ∀ m : KeyedMap β, m.entries.Nodup := by
    intro m
    refine m.sorted.imp ?_
    rintro a _ hlt rfl
    exact String.lt_irrefl _ hlt
  have hperm : m.entries.Perm n.entries :=
    (List.perm_ext_iff_of_nodup (hnodup m) (hnodup n)).2 hmem
  have hentries : m.entries = n.entries := by
    refine hperm.eq_of_pairwise (fun a b _ _ hab hba => ?_) m.sorted n.sorted
    exact absurd (String.lt_trans hab hba) (String.lt_irrefl _)
  cases m
  cases n
  simpa using hentries

/-! ## The names of analyzers -/

theorem Analyzer.ofName_name (a : Analyzer) : ofName a.name = .ok a := by
  cases a <;> rfl

theorem Analyzer.ofName_unknown {name : String} (h : ∀ a : Analyzer, a.name ≠ name) :
    ofName name = .error (.unknownAnalyzer name) := by
  have hnone : byName.lookup name = none := by
    refine List.lookup_eq_none_iff.2 fun p hp => ?_
    obtain ⟨a, -, rfl⟩ := List.mem_map.1 hp
    simpa using (h a).symm
  rw [ofName, hnone]

/-! ## Fields that take part -/

/-- What has a property for an analyzer is indexed with it. -/
theorem mem_of_propertyOf {name : String} {analyzers : List Analyzer} {a : Analyzer} {p : String}
    (h : propertyOf name analyzers a = some p) : a ∈ analyzers := by
  rcases propertyOf_eq_some.1 h with ⟨hmain, -⟩ | ⟨-, hother, -⟩
  · exact List.mem_of_mem_head? hmain
  · exact List.mem_of_mem_tail hother

namespace WeightRequest

/-- The analyzer that is wanted, if one is. -/
def Wants (r : WeightRequest) (wanted : Option Analyzer) : Prop :=
  r.analyzer = wanted.map Analyzer.name

/-- A field takes part: it may, no cross-field stands for it, and it is indexed with the analyzer
    that is wanted, or with its own one if none is. -/
structure Eligible (r : WeightRequest) (wanted : Option Analyzer) (f : Field) : Prop where
  admitted : r.admits f = true
  uncovered : r.defaultField = none ∨ (f.weight == 1.0) = false ∨
    wanted = none ∧ f.analyzer ≠ .standard
  indexed : wanted.getD f.analyzer ∈ f.analyzers

/-- A field takes part as a property. -/
def Maps (r : WeightRequest) (wanted : Option Analyzer) (f : Field) (p : String) : Prop :=
  r.Eligible wanted f ∧ f.property? (wanted.getD f.analyzer) = some p

/-- What a property weighs: what the last field says that takes part as this property, or the boost
    alone if it is the property `default` of the cross-field and no field takes part as it. -/
inductive Weighs (r : WeightRequest) (wanted : Option Analyzer) (default : Option String)
    (fields : List Field) (p : String) : Float → Prop where
  | field {f : Field} (hf : LastWith (r.Maps wanted · p) fields f) :
    Weighs r wanted default fields p (f.weight * r.boost)
  | default (hdefault : default = some p) (hfields : ∀ f ∈ fields, ¬ r.Maps wanted f p) :
    Weighs r wanted default fields p r.boost

section
variable {r : WeightRequest} {wanted : Option Analyzer} {default : Option String} {f : Field}
  {fields : List Field} {p : String} {x : Float}

theorem weightedProperty?_eq_some :
    Schema.weightedProperty? r wanted f = some p ↔ r.Maps wanted f p := by
  have htakes : Schema.takesPart r wanted f = true ↔ r.defaultField = none ∨
      (f.weight == 1.0) = false ∨ wanted = none ∧ f.analyzer ≠ .standard := by
    simp [Schema.takesPart, bne, or_assoc]
  unfold Schema.weightedProperty?
  constructor
  · intro h
    split at h
    · rename_i hpart
      obtain ⟨hadmits, hpart⟩ := Bool.and_eq_true_iff.1 hpart
      refine ⟨⟨hadmits, htakes.1 hpart, ?_⟩, h⟩
      exact mem_of_propertyOf h
    · nomatch h
  · rintro ⟨⟨hadmits, huncovered, -⟩, hp⟩
    rw [if_pos (Bool.and_eq_true_iff.2 ⟨hadmits, htakes.2 huncovered⟩)]
    exact hp

/-- One more field changes what its property weighs. -/
theorem get?_addWeight {w : Weights} :
    (Schema.addWeight r wanted w f).get? p = some x ↔
      r.Maps wanted f p ∧ x = f.weight * r.boost ∨ ¬ r.Maps wanted f p ∧ w.get? p = some x := by
  rw [← weightedProperty?_eq_some]
  unfold Schema.addWeight
  cases hproperty : Schema.weightedProperty? r wanted f with
  | none => simp
  | some q =>
    rw [KeyedMap.get?_insert, Option.some.injEq]
    by_cases hq : p = q
    · simp [hq, eq_comm]
    · simp [hq, Ne.symm hq]

theorem weighs_nil : r.Weighs wanted default [] p x ↔ default = some p ∧ x = r.boost := by
  constructor
  · rintro (hf | ⟨hdefault, -⟩)
    · exact absurd hf not_lastWith_nil
    · exact ⟨hdefault, rfl⟩
  · rintro ⟨hdefault, rfl⟩
    exact .default hdefault fun f hf => nomatch hf

theorem weighs_concat :
    r.Weighs wanted default (fields ++ [f]) p x ↔
      r.Maps wanted f p ∧ x = f.weight * r.boost ∨
        ¬ r.Maps wanted f p ∧ r.Weighs wanted default fields p x := by
  constructor
  · rintro (hg | ⟨hdefault, hfields⟩)
    · rcases lastWith_concat.1 hg with ⟨hf, rfl⟩ | ⟨hf, hg⟩
      · exact Or.inl ⟨hf, rfl⟩
      · exact Or.inr ⟨hf, .field hg⟩
    · rw [List.forall_mem_append, List.forall_mem_singleton] at hfields
      exact Or.inr ⟨hfields.2, .default hdefault hfields.1⟩
  · rintro (⟨hf, rfl⟩ | ⟨hf, hg | ⟨hdefault, hfields⟩⟩)
    · exact .field (lastWith_concat.2 (Or.inl ⟨hf, rfl⟩))
    · exact .field (lastWith_concat.2 (Or.inr ⟨hf, hg⟩))
    · refine .default hdefault ?_
      rw [List.forall_mem_append, List.forall_mem_singleton]
      exact ⟨hfields, hf⟩

/-- After all fields every property weighs what it should. -/
theorem get?_foldl_addWeight {start : Weights}
    (hstart : ∀ p x, start.get? p = some x ↔ default = some p ∧ x = r.boost) :
    (fields.foldl (Schema.addWeight r wanted) start).get? p = some x ↔
      r.Weighs wanted default fields p x := by
  induction fields using List.reverseRecOn generalizing x with
  | nil => rw [List.foldl_nil, hstart, weighs_nil]
  | append_singleton fields f ih =>
    rw [List.foldl_append, List.foldl_cons, List.foldl_nil, get?_addWeight, weighs_concat, ih]

end

end WeightRequest

/-! ## The judgment on a request -/

namespace Schema

/-- The property of the cross-field that takes part, if one does. -/
inductive DefaultIs (s : Schema) (r : WeightRequest) (wanted : Option Analyzer) :
    Option String → Prop where
  | none (hname : r.defaultField = none) : DefaultIs s r wanted none
  | some {name p : String} {c : Composite} (hname : r.defaultField = some name)
    (hc : s.composites.find? (·.name == name) = some c)
    (hp : c.property? (wanted.getD .standard) = some p) : DefaultIs s r wanted (some p)

/-- What a schema says to a request. -/
inductive Weighed (s : Schema) (r : WeightRequest) : Except Failure Weights → Prop where
  /-- No analyzer has the name. -/
  | unknownAnalyzer {name : String} (hname : r.analyzer = some name)
    (hunknown : ∀ a : Analyzer, a.name ≠ name) : Weighed s r (.error (.unknownAnalyzer name))
  /-- No cross-field has the name. -/
  | unknownDefault {wanted : Option Analyzer} {name : String} (hwanted : r.Wants wanted)
    (hname : r.defaultField = some name) (hunknown : ∀ c ∈ s.composites, c.name ≠ name) :
    Weighed s r (.error (.unknownDefaultField name))
  /-- The cross-field is not analyzed as it is wanted. -/
  | lacking {wanted : Option Analyzer} {name : String} {c : Composite} (hwanted : r.Wants wanted)
    (hname : r.defaultField = some name) (hc : s.composites.find? (·.name == name) = some c)
    (hlacks : wanted.getD .standard ∉ c.analyzers) :
    Weighed s r (.error (.unknownAnalyzer (name ++ "." ++ (wanted.getD .standard).name)))
  /-- Every property weighs what it should. -/
  | weights {wanted : Option Analyzer} {default : Option String} {w : Weights}
    (hwanted : r.Wants wanted) (hdefault : s.DefaultIs r wanted default)
    (hweighs : ∀ p x, w.get? p = some x ↔ r.Weighs wanted default s.fields p x) :
    Weighed s r (.ok w)

section
variable {s : Schema} {r : WeightRequest}

theorem mapM_ofName_of_wants {wanted : Option Analyzer} (h : r.Wants wanted) :
    r.analyzer.mapM Analyzer.ofName = .ok wanted := by
  rw [WeightRequest.Wants] at h
  cases wanted with
  | none => rw [h]; rfl
  | some a => rw [h, Option.map_some, Option.mapM_some, Analyzer.ofName_name]; rfl

/-- Once it is known which analyzer is wanted, and what the weights start from, the fields are added
    one after the other. -/
theorem weights_of_start {wanted : Option Analyzer} (hwanted : r.Wants wanted)
    {default : Option String} (hdefault : s.DefaultIs r wanted default) :
    ∃ w, s.weights r = .ok w ∧
      ∀ p x, w.get? p = some x ↔ r.Weighs wanted default s.fields p x := by
  have hmapM := mapM_ofName_of_wants hwanted
  unfold Schema.weights
  cases hdefault with
  | none hname =>
    rw [hmapM, hname]
    refine ⟨_, rfl, fun p x => WeightRequest.get?_foldl_addWeight fun p x => ?_⟩
    simp [KeyedMap.get?, KeyedMap.empty]
  | @some name q c hname hc hq =>
    have hproperty : s.defaultProperty name (wanted.getD .standard) = .ok q := by
      simp only [defaultProperty, hc, hq]
    rw [hmapM, hname]
    simp only [bind, Except.bind, hproperty]
    refine ⟨_, rfl, fun p x => WeightRequest.get?_foldl_addWeight fun p x => ?_⟩
    rw [KeyedMap.get?_insert]
    by_cases hpq : p = q
    · simp [hpq, eq_comm]
    · simp [hpq, Ne.symm hpq, KeyedMap.get?, KeyedMap.empty]

/-- What the judgment says is what the weights come to. -/
theorem weights_of_weighed {answer : Except Failure Weights} (h : s.Weighed r answer) :
    s.weights r = answer := by
  cases h with
  | @unknownAnalyzer name hname hunknown =>
    rw [Schema.weights, hname, Option.mapM_some, Analyzer.ofName_unknown hunknown]
    rfl
  | @unknownDefault wanted name hwanted hname hunknown =>
    have hnone : s.composites.find? (·.name == name) = none := by
      rw [List.find?_eq_none]
      intro c hc
      simpa using hunknown c hc
    rw [Schema.weights, mapM_ofName_of_wants hwanted, hname]
    simp only [bind, Except.bind, defaultProperty, hnone]
  | @lacking wanted name c hwanted hname hc hlacks =>
    have hnone : c.property? (wanted.getD .standard) = none := by
      rw [← Option.not_isSome_iff_eq_none]
      intro hsome
      obtain ⟨p, hp⟩ := Option.isSome_iff_exists.1 hsome
      exact hlacks (mem_of_propertyOf hp)
    rw [Schema.weights, mapM_ofName_of_wants hwanted, hname]
    simp only [bind, Except.bind, defaultProperty, hc, hnone]
  | @weights wanted default w hwanted hdefault hweighs =>
    obtain ⟨w', hw', hweighs'⟩ := weights_of_start hwanted hdefault
    have hsame : w' = w := by
      refine KeyedMap.ext_get? fun p => Option.ext fun x => ?_
      rw [hweighs, hweighs']
    rw [hw', hsame]

/-- The judgment says something to every request. -/
theorem exists_weighed (s : Schema) (r : WeightRequest) : ∃ answer, s.Weighed r answer := by
  have hdefaulted : ∀ wanted default, r.Wants wanted → s.DefaultIs r wanted default →
      ∃ answer, s.Weighed r answer := by
    intro wanted default hwanted hdefault
    obtain ⟨w, -, hweighs⟩ := weights_of_start hwanted hdefault
    exact ⟨_, .weights hwanted hdefault hweighs⟩
  have hwanted : ∀ wanted, r.Wants wanted → ∃ answer, s.Weighed r answer := by
    intro wanted hwanted
    cases hname : r.defaultField with
    | none => exact hdefaulted wanted none hwanted (.none hname)
    | some name =>
      cases hc : s.composites.find? (·.name == name) with
      | none =>
        refine ⟨_, .unknownDefault hwanted hname fun c hc' hcname => ?_⟩
        simpa [hcname] using List.find?_eq_none.1 hc c hc'
      | some c =>
        by_cases ha : wanted.getD .standard ∈ c.analyzers
        · obtain ⟨p, hp⟩ := exists_propertyOf c.name ha
          exact hdefaulted wanted (some p) hwanted (.some hname hc hp)
        · exact ⟨_, .lacking hwanted hname hc ha⟩
  cases hname : r.analyzer with
  | none => exact hwanted none hname
  | some name =>
    by_cases ha : ∃ a : Analyzer, a.name = name
    · obtain ⟨a, rfl⟩ := ha
      exact hwanted (some a) hname
    · exact ⟨_, .unknownAnalyzer hname fun a h => ha ⟨a, h⟩⟩

/-- **The weights are what the judgment says.** -/
theorem weights_eq_iff {answer : Except Failure Weights} :
    s.weights r = answer ↔ s.Weighed r answer := by
  refine ⟨?_, weights_of_weighed⟩
  rintro rfl
  obtain ⟨answer, h⟩ := exists_weighed s r
  exact weights_of_weighed h ▸ h

end

end Schema

/-! ## Searching in full text -/

/-- What a search in full text asks for: the searchable fields, and the cross-field of all of
    them. -/
def WeightRequest.fulltext : WeightRequest :=
  ⟨none, some Composite.searchName, 1.0, Field.searchable⟩

/-- A search in full text looks at a field for itself, and not only at the cross-field. -/
structure Field.StandsAlone (f : Field) : Prop where
  searchable : f.searchable = true
  uncovered : (f.weight == 1.0) = false ∨ f.analyzer ≠ .standard
  indexed : f.isText = true ∨ f.analyzer = .untouched

/-- A field that stands alone takes part under its own name. -/
theorem Field.maps_fulltext {f : Field} {p : String} :
    WeightRequest.fulltext.Maps none f p ↔ f.StandsAlone ∧ f.name = p := by
  constructor
  · rintro ⟨⟨hadmitted, huncovered, -⟩, hp⟩
    have huncovered : (f.weight == 1.0) = false ∨ f.analyzer ≠ .standard := by
      simpa [WeightRequest.fulltext] using huncovered
    cases htext : f.isText with
    | true =>
      rw [Option.getD_none, property?_analyzer htext] at hp
      exact ⟨⟨hadmitted, huncovered, Or.inl htext⟩, Option.some.inj hp⟩
    | false =>
      obtain ⟨huntouched, hname⟩ := (property?_of_value htext).1 hp
      exact ⟨⟨hadmitted, huncovered, Or.inr huntouched⟩, hname.symm⟩
  · rintro ⟨⟨hsearchable, huncovered, hindexed⟩, rfl⟩
    have hp : f.property? f.analyzer = some f.name := by
      cases htext : f.isText with
      | true => exact property?_analyzer htext
      | false =>
        have huntouched : f.analyzer = .untouched := hindexed.resolve_left (by simp [htext])
        exact (property?_of_value htext).2 ⟨huntouched, rfl⟩
    exact ⟨⟨hsearchable, Or.inr (huncovered.imp_right fun h => ⟨rfl, h⟩), mem_of_propertyOf hp⟩, hp⟩

/-- If no two fields have one name, there is only one field that a weight can come from. -/
theorem Field.weighs_fulltext {fields : List Field} (hnames : (fields.map Field.name).Nodup)
    {q p : String} {x : Float} :
    WeightRequest.fulltext.Weighs none (some q) fields p x ↔
      (∃ f ∈ fields, f.StandsAlone ∧ f.name = p ∧ x = f.weight * 1.0) ∨
        p = q ∧ x = 1.0 ∧ ∀ f ∈ fields, f.StandsAlone → f.name ≠ p := by
  have hlast : ∀ f, LastWith (WeightRequest.fulltext.Maps none · p) fields f ↔
      f ∈ fields ∧ f.StandsAlone ∧ f.name = p := by
    intro f
    rw [lastWith_iff_of_unique, maps_fulltext]
    intro g hg h hh hgp hhp
    refine List.inj_on_of_nodup_map hnames hg hh ?_
    rw [(maps_fulltext.1 hgp).2, (maps_fulltext.1 hhp).2]
  constructor
  · rintro (hf | ⟨hq, hfields⟩)
    · obtain ⟨hf, halone, hname⟩ := (hlast _).1 hf
      exact Or.inl ⟨_, hf, halone, hname, rfl⟩
    · refine Or.inr ⟨(Option.some.inj hq).symm, rfl, fun f hf halone hname => ?_⟩
      exact hfields f hf (maps_fulltext.2 ⟨halone, hname⟩)
  · rintro (⟨f, hf, halone, hname, rfl⟩ | ⟨rfl, rfl, hfields⟩)
    · exact .field ((hlast f).2 ⟨hf, halone, hname⟩)
    · refine .default rfl fun f hf hmaps => ?_
      obtain ⟨halone, hname⟩ := maps_fulltext.1 hmaps
      exact hfields f hf halone hname

/-- The query for a text that is spelled correctly has the weights that the schema says. -/
theorem WeightedSearch.build_exact {search : WeightedSearch} {s : Schema}
    (hschema : search.schema = some s) (text : String) :
    search.build text .exact = (s.weights .fulltext).map fun w =>
      .unnamed (.weighted w text none (some search.minimum)) := by
  rw [build, fields, hschema]
  rfl

/-- **A schema weighs what the judgment says**, and so does a search in full text: it fails as the
    schema does, and if there is a cross-field, it looks at the fields that stand alone, each under
    its own name and with its own weight, and at the cross-field, unless a field has its name. -/
theorem Declarations.weights_exact (d : Declarations) (s : Schema) (hs : d.compile = .ok s) :
    (∀ r answer, s.weights r = answer ↔ s.Weighed r answer) ∧
      ∀ search : WeightedSearch, search.schema = some s → ∀ text,
        (∀ answer, s.Weighed .fulltext answer → search.build text .exact = answer.map fun w =>
          .unnamed (.weighted w text none (some search.minimum))) ∧
        ∀ q, s.DefaultIs .fulltext none (some q) → ∃ w : Weights,
          search.build text .exact =
            .ok (.unnamed (.weighted w text none (some search.minimum))) ∧
          ∀ p x, w.get? p = some x ↔
            (∃ f ∈ s.fields, f.StandsAlone ∧ f.name = p ∧ x = f.weight * 1.0) ∨
              p = q ∧ x = 1.0 ∧ ∀ f ∈ s.fields, f.StandsAlone → f.name ≠ p := by
  have hnames : (s.fields.map Field.name).Nodup := by
    obtain rfl := d.compile_eq_ok hs
    exact (names_assemble d.fields).2
  refine ⟨fun r answer => Schema.weights_eq_iff, fun search hschema text => ⟨?_, ?_⟩⟩
  · intro answer hanswer
    rw [WeightedSearch.build_exact hschema, Schema.weights_of_weighed hanswer]
  · intro q hq
    have hwants : WeightRequest.fulltext.Wants none := rfl
    obtain ⟨w, hw, hweighs⟩ := Schema.weights_of_start hwants hq
    refine ⟨w, ?_, fun p x => (hweighs p x).trans (Field.weighs_fulltext hnames)⟩
    rw [WeightedSearch.build_exact hschema, hw]
    rfl

/-- A search for boots: the name weighs two and stands alone, the description is left to the
    cross-field. -/
theorem Declarations.weights_exact_boots :
    let d : Declarations := ⟨Composite.standard, "sku", [.plain "sku" .keyword,
      (Field.plain "name" .text).withWeight 2.0, (Field.plain "description" .text).withWeight 1.0]⟩
    ∃ s, d.compile = .ok s ∧ ∃ w : Weights,
      (WeightedSearch.standard (some s)).build "boots" .exact =
        .ok (.unnamed (.weighted w "boots" none (some "100%"))) ∧
      w.get? "search" = some 1.0 ∧ w.get? "name" = some (2.0 * 1.0) ∧
      w.get? "description" = none := by
  intro d
  obtain ⟨-, hsearch⟩ := weights_exact d d.schema rfl
  obtain ⟨-, hcross⟩ := hsearch (.standard (some d.schema)) rfl "boots"
  obtain ⟨w, hw, hweighs⟩ := hcross "search" (.some rfl rfl rfl)
  have hname : (Field.plain "name" .text).withWeight 2.0 ∈ assemble d.fields := mem_assemble.2 rfl
  have hdescription : ∀ f ∈ assemble d.fields, f.name = "description" →
      (f.weight == 1.0) = true ∧ f.analyzer = .standard := by decide
  refine ⟨d.schema, rfl, w, hw, (hweighs _ _).2 (Or.inr ⟨rfl, rfl, ?_⟩),
    (hweighs _ _).2 (Or.inl ⟨_, hname, ⟨rfl, Or.inl ?_, Or.inl rfl⟩, rfl, ?_⟩), ?_⟩
  · have hapart : ∀ f ∈ assemble d.fields, f.name ≠ "search" := by decide
    exact fun f hf _ => hapart f hf
  · decide
  · rfl
  · refine Option.eq_none_iff_forall_ne_some.2 fun x hx => ?_
    rcases (hweighs _ _).1 hx with ⟨f, hf, halone, hfname, -⟩ | ⟨hcross, -⟩
    · obtain ⟨hweight, hanalyzer⟩ := hdescription f hf hfname
      rcases halone.uncovered with hother | hother
      · rw [hweight] at hother
        nomatch hother
      · exact hother hanalyzer
    · exact absurd hcross (by decide)

end Merchandising
