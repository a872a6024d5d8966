import Isotherm.Proofs.Number.Order
import Isotherm.RenderConfig

/-!
# Settings that are let through

Settings are checked in a fixed order, and the first one that is out of its limits is reported by its
name. A distance is asked whether it is zero or less. Every number is either that or positive, but a
NaN is neither, so it is let through beside the positive distances.
-/

namespace Isotherm

namespace Scalar

def Positive : Scalar → Prop
  | integer n => 0 < n
  | real v => 0.0 < v

def IsNaN : Scalar → Prop
  | integer _ => False
  | real v => v.isNaN = true

end Scalar

namespace RenderConfig

theorem notPositive_eq_false_iff (s : Scalar) :
    notPositive s = false ↔ s.Positive ∨ s.IsNaN := by
  cases s with
  | integer n =>
    rw [notPositive, decide_eq_false_iff_not, Int.not_le]
    exact (or_false _).symm.to_iff
  | real v =>
    rw [notPositive, decide_eq_false_iff_not]
    exact Bits.not_le_zero_iff v

/-! ## One setting -/

/-- The settings that have limits. -/
inductive Field where
  | heatColourCount | speedMs | pointSize | scale | size | outputFile
deriving DecidableEq

namespace Field

/-- The order in which the settings are checked. -/
def order : List Field :=
  [heatColourCount, speedMs, pointSize, scale, size, outputFile]

theorem mem_order (field : Field) : field ∈ order := by
  cases field <;> decide

def name : Field → String
  | heatColourCount => "heat_colour_count"
  | speedMs => "speed_ms"
  | pointSize => "point_size"
  | scale => "scale"
  | size => "size"
  | outputFile => "output_file"

/-- What the setting is reported as, with its value. -/
def error (c : RenderConfig) : Field → ConfigError
  | heatColourCount => .heatColourCount c.heatColourCount
  | speedMs => .speedMs c.speedMs
  | pointSize => .pointSize c.pointSize
  | scale => .scale c.scale
  | size => .size c.size
  | outputFile => .outputFile

/-- Every report starts with the name of its setting. -/
theorem message_error (c : RenderConfig) (field : Field) :
    ∃ detail, (field.error c).message = field.name ++ " must " ++ detail := by
  have hgot (wanted before detail : String) (h : before = wanted ++ " must " ++ detail)
      (value : String) : ∃ rest, before ++ value = wanted ++ " must " ++ rest :=
    ⟨detail ++ value, by rw [h, String.append_assoc]⟩
  cases field with
  | heatColourCount => exact hgot _ _ "be between 1 and 126, got " (by decide) _
  | speedMs | pointSize => exact hgot _ _ "be positive, got " (by decide) _
  | scale | size => exact hgot _ _ "be at least 1, got " (by decide) _
  | outputFile =>
    show ∃ detail, "output_file must not be empty" = "output_file" ++ " must " ++ detail
    exact ⟨"not be empty", by decide⟩

/-- Whether the setting is let through. -/
def accepts (c : RenderConfig) : Field → Bool
  | heatColourCount => 1 ≤ c.heatColourCount && c.heatColourCount ≤ Heat.mostBuckets
  | speedMs => 0 < c.speedMs
  | pointSize => !notPositive c.pointSize
  | scale => 1 ≤ c.scale
  | size => 1 ≤ c.size
  | outputFile => !c.outputFile.isEmpty

/-- What a setting has to be to be let through: a distance may also be a NaN. -/
def Allowed (c : RenderConfig) : Field → Prop
  | heatColourCount => 1 ≤ c.heatColourCount ∧ c.heatColourCount ≤ 126
  | speedMs => 0 < c.speedMs
  | pointSize => c.pointSize.Positive ∨ c.pointSize.IsNaN
  | scale => 1 ≤ c.scale
  | size => 1 ≤ c.size
  | outputFile => c.outputFile ≠ ""

theorem accepts_iff (c : RenderConfig) (field : Field) :
    field.accepts c = true ↔ field.Allowed c := by
  cases field with
  | heatColourCount =>
    rw [accepts, Bool.and_eq_true, decide_eq_true_iff, decide_eq_true_iff]
    rfl
  | pointSize =>
    rw [accepts, Bool.not_eq_true', notPositive_eq_false_iff]
    rfl
  | outputFile => simp [accepts, Allowed]
  | speedMs | scale | size => exact decide_eq_true_iff

end Field

/-! ## All settings -/

/-- The settings are searched in order for one that is not let through. -/
theorem invalid?_eq_find? (c : RenderConfig) :
    c.invalid? = (Field.order.find? fun field => !field.accepts c).map (Field.error c) := by
  have hfirst (field : Field) (later : List Field) :
      ((field :: later).find? fun field => !field.accepts c).map (Field.error c) =
        if field.accepts c = false then some (field.error c)
        else (later.find? fun field => !field.accepts c).map (Field.error c) := by
    rw [List.find?_cons]
    cases field.accepts c <;> rfl
  have hcount : (c.heatColourCount < 1 || Heat.mostBuckets < c.heatColourCount) = true ↔
      Field.heatColourCount.accepts c = false := by
    simp only [Field.accepts, Bool.or_eq_true, Bool.and_eq_false_iff, decide_eq_true_iff,
      decide_eq_false_iff_not, Int.not_le]
  unfold invalid? Field.order
  iterate 6 rw [hfirst]
  refine if_congr hcount rfl (if_congr ?_ rfl (if_congr ?_ rfl (if_congr ?_ rfl
    (if_congr ?_ rfl (if_congr ?_ rfl rfl)))))
  all_goals simp [Field.accepts]

/-- Every setting is in its limits. -/
structure InLimits (c : RenderConfig) : Prop where
  coloured : 1 ≤ c.heatColourCount
  distinct : c.heatColourCount ≤ Heat.mostBuckets
  speed : 1 ≤ c.speedMs
  pointSize : notPositive c.pointSize = false
  scale : 1 ≤ c.scale
  size : 1 ≤ c.size
  outputFile : c.outputFile.isEmpty = false

theorem forall_accepts_iff (c : RenderConfig) :
    (∀ field : Field, field.accepts c = true) ↔ c.InLimits := by
  constructor
  · intro h
    have hcount := h .heatColourCount
    have hspeed := h .speedMs
    have hpoint := h .pointSize
    have hscale := h .scale
    have hsize := h .size
    have hpath := h .outputFile
    simp only [Field.accepts, Bool.and_eq_true, decide_eq_true_iff, Bool.not_eq_true'] at *
    exact ⟨hcount.1, hcount.2, hspeed, hpoint, hscale, hsize, hpath⟩
  · intro h field
    cases field with
    | heatColourCount => simp [Field.accepts, h.coloured, h.distinct]
    | speedMs => exact decide_eq_true h.speed
    | pointSize => simp [Field.accepts, h.pointSize]
    | scale => exact decide_eq_true h.scale
    | size => exact decide_eq_true h.size
    | outputFile => simp [Field.accepts, h.outputFile]

theorem invalid?_eq_none_iff (c : RenderConfig) : c.invalid? = none ↔ c.InLimits := by
  rw [invalid?_eq_find?, Option.map_eq_none_iff, List.find?_eq_none, ← forall_accepts_iff]
  constructor
  · intro h field
    simpa using h field field.mem_order
  · intro h field _
    simp [h field]

/-- The report is that of the first setting in order that is not let through. -/
theorem invalid?_eq_some_iff (c : RenderConfig) (error : ConfigError) :
    c.invalid? = some error ↔ ∃ before field after, Field.order = before ++ field :: after ∧
      (∀ earlier ∈ before, earlier.accepts c = true) ∧ field.accepts c = false ∧
      error = field.error c := by
  rw [invalid?_eq_find?, Option.map_eq_some_iff]
  constructor
  · intro h
    obtain ⟨field, hfield, herror⟩ := h
    obtain ⟨hfails, before, after, horder, hbefore⟩ := List.find?_eq_some_iff_append.mp hfield
    refine ⟨before, field, after, horder, ?_, by simpa using hfails, herror.symm⟩
    intro earlier hearlier
    simpa using hbefore earlier hearlier
  · intro h
    obtain ⟨before, field, after, horder, hbefore, hfails, herror⟩ := h
    refine ⟨field, List.find?_eq_some_iff_append.mpr ⟨by simp [hfails], before, after, horder, ?_⟩,
      herror.symm⟩
    intro earlier hearlier
    simp [hbefore earlier hearlier]

/-- Settings are valid exactly where each of them is allowed. Otherwise the first one in order that is
not is reported, with its value, and the message starts with its name. -/
theorem first_unallowed_setting (c : RenderConfig) :
    (c.invalid? = none ↔ ∀ field : Field, field.Allowed c) ∧
      ∀ error, c.invalid? = some error ↔ ∃ before field after,
        Field.order = before ++ field :: after ∧ (∀ earlier ∈ before, earlier.Allowed c) ∧
        ¬field.Allowed c ∧ error = field.error c ∧
        ∃ detail, error.message = field.name ++ " must " ++ detail := by
  constructor
  · rw [invalid?_eq_none_iff, ← forall_accepts_iff]
    exact forall_congr' (Field.accepts_iff c)
  · intro error
    rw [invalid?_eq_some_iff]
    simp only [← Field.accepts_iff, Bool.not_eq_true]
    constructor
    · intro h
      obtain ⟨before, field, after, horder, hbefore, hfails, herror⟩ := h
      refine ⟨before, field, after, horder, hbefore, hfails, herror, ?_⟩
      rw [herror]
      exact field.message_error c
    · intro h
      obtain ⟨before, field, after, horder, hbefore, hfails, herror, -⟩ := h
      exact ⟨before, field, after, horder, hbefore, hfails, herror⟩

/-- Settings are valid whose distance is a NaN, and that is not positive. -/
theorem nan_distance_is_valid :
    let c : RenderConfig := { pointSize := .real (0.0 / 0.0) }
    c.invalid? = none ∧ ¬c.pointSize.Positive := by
  intro c
  have hvalid : c.invalid?.isNone = true := by decide +kernel
  have hnot : ¬(0.0 : Float) < 0.0 / 0.0 := by decide +kernel
  exact ⟨Option.isNone_iff_eq_none.mp hvalid, hnot⟩

end RenderConfig
end Isotherm
