import Mathlib.Data.List.Forall2
import ModuleResolution.BinaryVersion.Document

namespace ModuleResolution

namespace Fields

variable {α : Type} {fs : Fields} {key other : String} {d : Document} {missing : α}
  {read : Document → Option α}

theorem get?_cons :
    get? ((other, d) :: fs) key = if key = other then some d else fs.get? key := by
  rw [get?, List.lookup_cons, get?]
  by_cases h : key = other
  · simp [h]
  · rw [beq_eq_false_iff_ne.mpr h, if_neg h]

@[simp] theorem required_cons : required ((other, d) :: fs) key read =
    if key = other then read d else fs.required key read := by
  rw [required, get?_cons, required]
  split <;> rfl

@[simp] theorem withDefault_nil : withDefault [] key missing read = some missing := by
  rw [withDefault, get?, List.lookup_nil]

@[simp] theorem withDefault_cons : withDefault ((other, d) :: fs) key missing read =
    if key = other then read d else fs.withDefault key missing read := by
  rw [withDefault, get?_cons, withDefault]
  by_cases h : key = other <;> simp [h]

@[simp] theorem optional_nil : optional [] key read = some none :=
  withDefault_nil

@[simp] theorem optional_cons : optional ((other, d) :: fs) key read =
    if key = other then Document.nullable? read d else fs.optional key read := by
  rw [optional, withDefault_cons, optional]

end Fields

namespace Document

@[simp] theorem fields?_table_bind {α : Type} {keys : List String} {fs : Fields}
    {f : Fields → Option α} : (fields? keys (.table fs) >>= f) = f fs := by
  rw [fields?, entries?]
  · rfl
  · exact fun _ => Document.noConfusion

abbrev Likeness := Document → Document → Prop

inductive PaddedFields (fields : List (String × Likeness)) : Fields → Fields → Prop
  | nil : PaddedFields fields [] []
  | stray {key : String} {d : Document} {fs gs : Fields} (hkey : key ∉ fields.map Prod.fst)
      (h : PaddedFields fields fs gs) : PaddedFields fields fs ((key, d) :: gs)
  | kept {key : String} {d : Document} {fs gs : Fields} (h : PaddedFields fields fs gs) :
      PaddedFields fields ((key, d) :: fs) ((key, d) :: gs)
  | padded {key : String} {alike : Likeness} {d e : Document} {fs gs : Fields}
      (hkey : fields.lookup key = some alike) (halike : alike d e)
      (h : PaddedFields fields fs gs) : PaddedFields fields ((key, d) :: fs) ((key, e) :: gs)

inductive PaddedRecord (fields : List (String × Likeness)) : Likeness
  | same (d : Document) : PaddedRecord fields d d
  | table {fs gs : Fields} (h : PaddedFields fields fs gs) :
      PaddedRecord fields (.table fs) (.table gs)

inductive PaddedItems (alike : Likeness) : Likeness
  | same (d : Document) : PaddedItems alike d d
  | array {ds es : List Document} (h : List.Forall₂ alike ds es) :
      PaddedItems alike (.array ds) (.array es)

def Respects {α : Type} (alike : Likeness) (read : Document → Option α) : Prop :=
  ∀ d e, alike d e → read e = read d

structure Faithful {α : Type} (write : α → Document) (read : Document → Option α)
    (alike : Likeness) : Prop where
  read_write : ∀ a, read (write a) = some a
  respects : Respects alike read

variable {α : Type} {write : α → Document} {read : Document → Option α} {alike : Likeness}
  {fields : List (String × Likeness)} {fs gs : Fields} {key : String}

def KeepsNull (alike : Likeness) : Prop :=
  ∀ d e, alike d e → (e = .null ↔ d = .null)

theorem keepsNull_eq : KeepsNull Eq :=
  fun _ _ h => h ▸ .rfl

theorem keepsNull_record (fields : List (String × Likeness)) : KeepsNull (PaddedRecord fields) := by
  intro d e h
  cases h with
  | same => exact .rfl
  | table => exact ⟨Document.noConfusion, Document.noConfusion⟩

theorem keepsNull_items (alike : Likeness) : KeepsNull (PaddedItems alike) := by
  intro d e h
  cases h with
  | same => exact .rfl
  | array => exact ⟨Document.noConfusion, Document.noConfusion⟩

theorem nullable?_of_ne {d : Document} (h : d ≠ .null) :
    nullable? read d = (read d).map some := by
  cases d with
  | null => exact absurd rfl h
  | _ => rfl

theorem respects_nullable (hnull : KeepsNull alike) (hread : Respects alike read) :
    Respects alike (nullable? read) := by
  intro d e halike
  by_cases hd : d = .null
  · rw [hd, (hnull d e halike).mpr hd]
  · have he : e ≠ .null := mt (hnull d e halike).mp hd
    rw [nullable?_of_ne hd, nullable?_of_ne he, hread d e halike]

theorem lookup_eq_none_of_stray (h : key ∉ fields.map Prod.fst) : fields.lookup key = none := by
  refine List.lookup_eq_none_iff.mpr fun field hfield => bne_iff_ne.mpr ?_
  rintro rfl
  exact h (List.mem_map_of_mem hfield)

namespace PaddedFields

theorem map_get? (h : PaddedFields fields fs gs) (hkey : fields.lookup key = some alike)
    (hread : Respects alike read) : (gs.get? key).map read = (fs.get? key).map read := by
  induction h with
  | nil => rfl
  | @stray other d fs gs hstray h ih =>
      have hne : ¬ key = other := by
        rintro rfl
        cases (lookup_eq_none_of_stray hstray).symm.trans hkey
      rwa [Fields.get?_cons, if_neg hne]
  | @kept other d fs gs h ih =>
      rw [Fields.get?_cons, Fields.get?_cons]
      by_cases heq : key = other
      · rw [if_pos heq, if_pos heq]
      · rwa [if_neg heq, if_neg heq]
  | @padded other like d e fs gs hother halike h ih =>
      rw [Fields.get?_cons, Fields.get?_cons]
      by_cases heq : key = other
      · subst heq
        obtain rfl := Option.some.inj (hkey.symm.trans hother)
        rw [if_pos rfl, if_pos rfl, Option.map_some, Option.map_some, hread d e halike]
      · rwa [if_neg heq, if_neg heq]

theorem withDefault (h : PaddedFields fields fs gs) (key : String)
    (hkey : fields.lookup key = some alike) (hread : Respects alike read) (missing : α) :
    gs.withDefault key missing read = fs.withDefault key missing read := by
  have hdefault (fs : Fields) : fs.withDefault key missing read =
      ((fs.get? key).map read).getD (some missing) := by
    rw [Fields.withDefault]
    cases fs.get? key <;> rfl
  rw [hdefault, hdefault, h.map_get? hkey hread]

theorem required (h : PaddedFields fields fs gs) (key : String)
    (hkey : fields.lookup key = some alike) (hread : Respects alike read) :
    gs.required key read = fs.required key read := by
  have hjoin (fs : Fields) : fs.required key read = ((fs.get? key).map read).join := by
    rw [Fields.required]
    cases fs.get? key <;> rfl
  rw [hjoin, hjoin, h.map_get? hkey hread]

theorem optional (h : PaddedFields fields fs gs) (key : String)
    (hkey : fields.lookup key = some alike) (hnull : KeepsNull alike)
    (hread : Respects alike read) : gs.optional key read = fs.optional key read :=
  h.withDefault key hkey (respects_nullable hnull hread) none

end PaddedFields

theorem respects_record {keys : List String} {f : Fields → Option α}
    (hf : ∀ fs gs, PaddedFields fields fs gs → f gs = f fs) :
    Respects (PaddedRecord fields) fun d => d.fields? keys >>= f := by
  intro d e h
  cases h with
  | same => rfl
  | table h => exact hf _ _ h

theorem respects_items (hread : Respects alike read) :
    Respects (PaddedItems alike) (list? read) := by
  intro d e h
  cases h with
  | same => rfl
  | array hitems =>
      change List.mapM read _ = List.mapM read _
      induction hitems with
      | nil => rfl
      | cons hitem _ ih => rw [List.mapM_cons, List.mapM_cons, hread _ _ hitem, ih]

theorem respects_eq (read : Document → Option α) : Respects Eq read :=
  fun _ _ h => h ▸ rfl

namespace Faithful

theorem string : Faithful Document.string string? Eq where
  read_write _ := rfl
  respects := respects_eq _

theorem boolean : Faithful Document.boolean boolean? Eq where
  read_write _ := rfl
  respects := respects_eq _

theorem word : Faithful (fun w : UInt32 => .integer w.toNat) word? Eq where
  read_write w := by
    have hlt : (w.toNat : Int) < UInt32.size := Int.ofNat_lt.mpr w.toNat_lt
    rw [word?, if_pos ⟨Int.natCast_nonneg _, hlt⟩, Int.toNat_natCast, Nat.toUInt32_eq,
      UInt32.ofNat_toNat]
  respects := respects_eq _

theorem nullable (h : Faithful write read alike) (hnull : read .null = none) (a : α) :
    nullable? read (write a) = some (some a) := by
  have hwrite : write a ≠ .null := by
    intro hwrite
    have hread := h.read_write a
    rw [hwrite, hnull] at hread
    cases hread
  rw [nullable?_of_ne hwrite, h.read_write, Option.map_some]

theorem mapM_map (h : Faithful write read alike) (as : List α) :
    (as.map write).mapM read = some as := by
  induction as with
  | nil => rfl
  | cons a as ih => simp [h.read_write, ih]

theorem list (h : Faithful write read alike) :
    Faithful (fun as => .array (as.map write)) (list? read) (PaddedItems alike) where
  read_write as := h.mapM_map as
  respects := respects_items h.respects

theorem strings : Faithful ofStrings (list? string?) Eq where
  read_write ss := string.mapM_map ss
  respects := respects_eq _

end Faithful

end Document

end ModuleResolution
