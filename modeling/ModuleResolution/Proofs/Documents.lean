import ModuleResolution.Format
import ModuleResolution.Proofs.Readers

namespace ModuleResolution

namespace Ascending

variable {α : Type} {cmp : α → α → Ordering}

theorem place_of_forall_lt [Std.OrientedCmp cmp] {a : α} {l : List α}
    (h : ∀ b ∈ l, cmp b a = .lt) : place cmp a l = l ++ [a] := by
  induction l with
  | nil => rfl
  | cons b bs ih =>
      rw [List.forall_mem_cons] at h
      rw [place, Std.OrientedCmp.gt_of_lt h.1, List.cons_append, ← ih h.2]

variable [Std.TransCmp cmp]

theorem toList_insertAll (s : Ascending cmp) {as : List α}
    (h : (s.toList ++ as).Pairwise fun a b => cmp a b = .lt) :
    (s.insertAll as).toList = s.toList ++ as := by
  induction as generalizing s with
  | nil => exact (List.append_nil _).symm
  | cons a as ih =>
      have hinsert : (s.insert a).toList = s.toList ++ [a] :=
        place_of_forall_lt fun b hb => (List.pairwise_append.mp h).2.2 b hb a List.mem_cons_self
      rw [List.append_cons, ← hinsert] at h ⊢
      exact ih _ h

theorem ofList_toList (s : Ascending cmp) : ofList s.toList = s :=
  ext (toList_insertAll empty s.ascending)

end Ascending

open Document

namespace BinaryVersion

def Padded : Likeness :=
  PaddedRecord [("major", Eq), ("minor", Eq)]

theorem faithful : Faithful toDocument ofDocument? Padded where
  read_write v := by
    simp [toDocument, ofDocument?, Faithful.word.read_write]
  respects := respects_record fun fs gs h => by
    simp only [h.required "major" rfl Faithful.word.respects,
      h.required "minor" rfl Faithful.word.respects]

end BinaryVersion

namespace Config

namespace Settings

def Padded : Likeness :=
  PaddedRecord [("binary-version", BinaryVersion.Padded), ("load-transitive-dependencies", Eq),
    ("artifact-extensions", Eq)]

def toDocument (s : Settings) : Document :=
  .table
    [("binary-version", s.binaryVersion.toDocument),
      ("load-transitive-dependencies", .boolean s.loadTransitive),
      ("artifact-extensions", .ofStrings s.extensions)]

theorem faithful : Faithful toDocument ofDocument? Padded where
  read_write s := by
    simp [toDocument, ofDocument?, BinaryVersion.faithful.read_write,
      Faithful.boolean.read_write, Faithful.strings.read_write]
  respects := respects_record fun fs gs h => by
    simp only [h.withDefault "binary-version" rfl BinaryVersion.faithful.respects,
      h.withDefault "load-transitive-dependencies" rfl Faithful.boolean.respects,
      h.withDefault "artifact-extensions" rfl Faithful.strings.respects]

end Settings

def foundationalToDocument (c : Coordinates) : Document :=
  .table [("name", .string c.name), ("version", .string c.version)]

def FoundationalPadded : Likeness :=
  PaddedRecord [("name", Eq), ("version", Eq)]

theorem faithful_foundational :
    Faithful foundationalToDocument foundationalOfDocument? FoundationalPadded where
  read_write c := by
    simp [foundationalToDocument, foundationalOfDocument?, Faithful.string.read_write]
  respects := respects_record fun fs gs h => by
    simp only [h.withDefault "name" rfl Faithful.string.respects,
      h.withDefault "version" rfl Faithful.string.respects]

def platformToDocument (p : Platform) : Document :=
  .table
    [("version", .string p.version), ("oldest-provided", .string p.oldest),
      ("modules", .ofStrings p.modules)]

def PlatformPadded : Likeness :=
  PaddedRecord [("version", Eq), ("oldest-provided", Eq), ("modules", Eq)]

theorem faithful_platform : Faithful platformToDocument platformOfDocument? PlatformPadded where
  read_write p := by
    simp [platformToDocument, platformOfDocument?, Faithful.string.read_write,
      Faithful.strings.read_write]
  respects := respects_record fun fs gs h => by
    simp only [h.withDefault "version" rfl Faithful.string.respects,
      h.withDefault "oldest-provided" rfl Faithful.string.respects,
      h.withDefault "modules" rfl Faithful.strings.respects]

def Padded : Likeness :=
  PaddedRecord [("toolchain", Settings.Padded), ("foundational", FoundationalPadded),
    ("platform", PlatformPadded)]

theorem toDocument_eq (c : Config) : c.toDocument = .table
    [("toolchain", Settings.toDocument ⟨c.binaryVersion, c.loadTransitive, c.extensions⟩),
      ("foundational", foundationalToDocument c.foundational),
      ("platform", platformToDocument c.platform)] :=
  rfl

theorem faithful : Faithful toDocument ofDocument? Padded where
  read_write c := by
    simp [toDocument_eq, ofDocument?, Settings.faithful.read_write,
      faithful_foundational.read_write, faithful_platform.read_write]
  respects := respects_record fun fs gs h => by
    simp only [h.withDefault "toolchain" rfl Settings.faithful.respects,
      h.withDefault "foundational" rfl faithful_foundational.respects,
      h.withDefault "platform" rfl faithful_platform.respects]

end Config

namespace Dependency

def Padded : Likeness :=
  PaddedRecord [("module", Eq), ("version", Eq), ("optional", Eq), ("export", Eq)]

theorem faithful : Faithful toDocument ofDocument? Padded where
  read_write d := by
    simp [toDocument, ofDocument?, Faithful.string.read_write, Faithful.boolean.read_write]
  respects := respects_record fun fs gs h => by
    simp only [h.required "module" rfl Faithful.string.respects,
      h.required "version" rfl Faithful.string.respects,
      h.withDefault "optional" rfl Faithful.boolean.respects,
      h.withDefault "export" rfl Faithful.boolean.respects]

theorem faithful_list : Faithful ofDependencies (list? ofDocument?) (PaddedItems Padded) :=
  faithful.list

end Dependency

namespace OverrideRule

def Padded : Likeness :=
  PaddedRecord [("module", Eq), ("version", Eq), ("dependencies", PaddedItems Dependency.Padded),
    ("add", PaddedItems Dependency.Padded), ("remove", Eq)]

theorem faithful : Faithful toDocument ofDocument? Padded where
  read_write rule := by
    obtain ⟨module, version, replacement, additions, removals⟩ := rule
    cases version <;> cases replacement <;>
      simp [toDocument, ofDocument?, entry?, Faithful.string.read_write,
        Faithful.string.nullable rfl, Faithful.strings.read_write,
        Dependency.faithful_list.read_write, Dependency.faithful_list.nullable rfl]
  respects := respects_record fun fs gs h => by
    simp only [h.required "module" rfl Faithful.string.respects,
      h.optional "version" rfl keepsNull_eq Faithful.string.respects,
      h.optional "dependencies" rfl (keepsNull_items _) Dependency.faithful_list.respects,
      h.withDefault "add" rfl Dependency.faithful_list.respects,
      h.withDefault "remove" rfl Faithful.strings.respects]

end OverrideRule

namespace Pins

theorem mapM_string (pins : List (String × String)) :
    (pins.map fun pin => (pin.1, Document.string pin.2)).mapM
        (fun entry => entry.2.string?.map fun version => (entry.1, version)) =
      some pins := by
  induction pins with
  | nil => rfl
  | cons pin pins ih => simp [ih, Faithful.string.read_write]

theorem faithful : Faithful toDocument ofDocument? Eq where
  read_write pins := by
    rw [ofDocument?, toDocument, entries?, Option.bind_eq_bind, Option.bind_some, mapM_string,
      Option.bind_eq_bind, Option.bind_some, Ascending.ofList_toList]
    rfl
  respects := respects_eq _

end Pins

namespace Overrides

def Padded : Likeness :=
  PaddedRecord [("artifact", PaddedItems OverrideRule.Padded), ("set", Eq)]

theorem faithful : Faithful toDocument ofDocument? Padded where
  read_write o := by
    simp [toDocument, ofDocument?, OverrideRule.faithful.list.read_write, Pins.faithful.read_write]
  respects := respects_record fun fs gs h => by
    simp only [h.withDefault "artifact" rfl OverrideRule.faithful.list.respects,
      h.withDefault "set" rfl Pins.faithful.respects]

end Overrides

namespace ArtifactDependency

theorem faithful_kind :
    Faithful (fun k : DependencyKind => .string k.name) kindOfDocument? Eq where
  read_write k := DependencyKind.ofName?_name k
  respects := respects_eq _

def Padded : Likeness :=
  PaddedRecord [("name", Eq), ("version", Eq), ("type", Eq)]

theorem faithful : Faithful toDocument ofDocument? Padded where
  read_write d := by
    simp [toDocument, ofDocument?, Faithful.string.read_write, faithful_kind.read_write]
  respects := respects_record fun fs gs h => by
    simp only [h.required "name" rfl Faithful.string.respects,
      h.required "version" rfl Faithful.string.respects,
      h.withDefault "type" rfl faithful_kind.respects]

end ArtifactDependency

namespace SourceModule

def Padded : Likeness :=
  PaddedRecord [("name", Eq), ("version", Eq), ("imports", PaddedItems Dependency.Padded)]

theorem faithful : Faithful toDocument ofDocument? Padded where
  read_write src := by
    simp [toDocument, ofDocument?, Faithful.string.read_write,
      Dependency.faithful_list.read_write]
  respects := respects_record fun fs gs h => by
    simp only [h.required "name" rfl Faithful.string.respects,
      h.required "version" rfl Faithful.string.respects,
      h.withDefault "imports" rfl Dependency.faithful_list.respects]

end SourceModule

namespace PlannedArtifact

def Padded : Likeness :=
  PaddedRecord [("name", Eq), ("version", Eq), ("binary-version", BinaryVersion.Padded),
    ("dependencies", PaddedItems ArtifactDependency.Padded)]

theorem faithful : Faithful toDocument ofDocument? Padded where
  read_write a := by
    obtain ⟨⟨name, version⟩, binaryVersion, dependencies⟩ := a
    cases binaryVersion <;>
      simp [toDocument, ofDocument?, entry?, Faithful.string.read_write,
        BinaryVersion.faithful.nullable rfl, ArtifactDependency.faithful.list.read_write]
  respects := respects_record fun fs gs h => by
    simp only [h.required "name" rfl Faithful.string.respects,
      h.required "version" rfl Faithful.string.respects,
      h.optional "binary-version" rfl (keepsNull_record _) BinaryVersion.faithful.respects,
      h.withDefault "dependencies" rfl ArtifactDependency.faithful.list.respects]

end PlannedArtifact

namespace Plan

def Padded : Likeness :=
  PaddedRecord [("source", PaddedItems SourceModule.Padded),
    ("artifact", PaddedItems PlannedArtifact.Padded)]

theorem faithful : Faithful toDocument ofDocument? Padded where
  read_write p := by
    simp [toDocument, ofDocument?, SourceModule.faithful.list.read_write,
      PlannedArtifact.faithful.list.read_write]
  respects := respects_record fun fs gs h => by
    simp only [h.withDefault "source" rfl SourceModule.faithful.list.respects,
      h.withDefault "artifact" rfl PlannedArtifact.faithful.list.respects]

end Plan

theorem read_written_and_padded :
    (∀ c : Config, Config.ofDocument? c.toDocument = some c) ∧
    (∀ o : Overrides, Overrides.ofDocument? o.toDocument = some o) ∧
    (∀ p : Plan, Plan.ofDocument? p.toDocument = some p) ∧
    (∀ d e, Config.Padded d e → Config.ofDocument? e = Config.ofDocument? d) ∧
    (∀ d e, Overrides.Padded d e → Overrides.ofDocument? e = Overrides.ofDocument? d) ∧
    ∀ d e, Plan.Padded d e → Plan.ofDocument? e = Plan.ofDocument? d :=
  ⟨Config.faithful.read_write, Overrides.faithful.read_write, Plan.faithful.read_write,
    Config.faithful.respects, Overrides.faithful.respects, Plan.faithful.respects⟩

def emptyReplacement : Overrides :=
  ⟨[⟨"m", none, none, [], ["n"]⟩, ⟨"m", some "1", some [], [], []⟩], .ofList [("n", "2")]⟩

def sourceOnly : Plan :=
  ⟨[⟨⟨"app", "1"⟩, [⟨"lib", "1", false, true⟩]⟩], []⟩

def annotatedImport : Document :=
  .table
    [("module", .string "lib"), ("version", .string "1"), ("optional", .boolean false),
      ("export", .boolean true), ("line", .integer 3)]

def annotatedSource : Document :=
  .table
    [("name", .string "app"), ("version", .string "1"), ("path", .string "src"),
      ("imports", .array [annotatedImport]), ("license", .null)]

def annotatedPlan : Document :=
  .table
    [("title", .string "demo"), ("source", .array [annotatedSource]), ("artifact", .array [])]

theorem read_written_and_padded_annotatedPlan :
    Config.ofDocument? Config.default.toDocument = some Config.default ∧
      Overrides.ofDocument? emptyReplacement.toDocument = some emptyReplacement ∧
      Plan.Padded sourceOnly.toDocument annotatedPlan ∧
      Plan.ofDocument? annotatedPlan = some sourceOnly := by
  obtain ⟨hconfig, hoverrides, hplan, -, -, hpadded⟩ := read_written_and_padded
  have himport :
      Dependency.Padded (Dependency.toDocument ⟨"lib", "1", false, true⟩) annotatedImport :=
    .table (.kept (.kept (.kept (.kept (.stray (by decide) .nil)))))
  have hsource : SourceModule.Padded
      (SourceModule.toDocument ⟨⟨"app", "1"⟩, [⟨"lib", "1", false, true⟩]⟩) annotatedSource :=
    .table (.kept (.kept (.stray (by decide) (.padded rfl (.array (.cons himport .nil))
      (.stray (by decide) .nil)))))
  have hannotated : Plan.Padded sourceOnly.toDocument annotatedPlan :=
    .table (.stray (by decide) (.padded rfl (.array (.cons hsource .nil)) (.kept .nil)))
  exact ⟨hconfig _, hoverrides _, hannotated, (hpadded _ _ hannotated).trans (hplan _)⟩

end ModuleResolution
