import TrapChat.Client.MediaInput
import TrapChat.Library.Doubles

/-!
The names of received files. Whatever a sender calls a file, its name here is not
empty, not long, and no path: `..` has gone, and stays away when separators are
replaced and the name is cut off.

A name is any text, by its code units. One that is well formed gets the same name as
in the model of whole transfers.
-/

namespace TrapChat.Client.MediaInput

open Doubles JsValue

/-- The code unit of a dot. -/
def dot : UInt16 := 0x2E

/-- Path separators, the colon and the null character. -/
def pathUnits : List UInt16 := [0x2F, 0x5C, 0x3A, 0x00]

/-- What is put for one unit of a name. -/
def replacePathUnit (unit : UInt16) : UInt16 := if unit ∈ pathUnits then 0x5F else unit

/-- A name that leads to no other place. -/
structure SafeFileName (name : Text) : Prop where
  nonempty : name ≠ []
  length : name.length ≤ 255
  plain : ∀ unit ∈ name, unit ∉ pathUnits
  single : ¬[dot, dot] <:+: name

theorem dropDotDot_eq (name : Text) : dropDotDot name = dropDoubles dot name := by
  refine eq_dropDoubles rfl (fun rest => rfl) (fun unit rest hsingle => ?_) name
  rw [dropDotDot]
  rintro rest' hunit rfl
  exact hsingle hunit rfl

theorem sanitizeFileName_str (name : Text) : sanitizeFileName (some (.str name)) =
    if ((dropDoubles dot name).map replacePathUnit).take 255 = [] then text "file"
    else ((dropDoubles dot name).map replacePathUnit).take 255 := by
  rw [← dropDotDot_eq]
  rfl

theorem replacePathUnit_notMem (unit : UInt16) : replacePathUnit unit ∉ pathUnits := by
  rw [replacePathUnit]
  split
  · decide
  · next hplain => exact hplain

/-- Nothing is replaced by a dot. -/
theorem eq_dot_of_replacePathUnit {unit : UInt16} (h : replacePathUnit unit = dot) :
    unit = dot := by
  rw [replacePathUnit] at h
  split at h
  · exact absurd h (by decide)
  · exact h

theorem safeFileName_file : SafeFileName (text "file") := by
  have hplain : ((text "file").all fun unit => decide (unit ∉ pathUnits)) = true := by decide
  refine ⟨by decide, by decide, fun unit hunit => ?_, ?_⟩
  · exact of_decide_eq_true (List.all_eq_true.mp hplain unit hunit)
  · exact single_iff.mp (single_dropDoubles dot (text "file"))

/-- **What is left of a name is safe.** -/
theorem safeFileName_sanitize (name : Text) :
    SafeFileName (sanitizeFileName (some (.str name))) := by
  rw [sanitizeFileName_str]
  split
  · exact safeFileName_file
  · next hsome =>
    refine ⟨hsome, List.length_take_le _ _, fun unit hunit => ?_, ?_⟩
    · obtain ⟨unit', -, rfl⟩ := List.mem_map.mp (List.mem_of_mem_take hunit)
      exact replacePathUnit_notMem unit'
    · have hsingle := single_dropDoubles dot name
      exact single_iff.mp ((hsingle.map fun _ => eq_dot_of_replacePathUnit).take 255)

/-- **A safe name stays as it is.** -/
theorem sanitizeFileName_of_safe {name : Text} (h : SafeFileName name) :
    sanitizeFileName (some (.str name)) = name := by
  have hdrop : dropDoubles dot name = name := dropDoubles_of_single (single_iff.mpr h.single)
  have hmap : name.map replacePathUnit = name := by
    refine (List.map_congr_left fun unit hunit => ?_).trans (List.map_id name)
    exact if_neg (h.plain unit hunit)
  rw [sanitizeFileName_str, hdrop, hmap, List.take_of_length_le h.length, if_neg h.nonempty]

/-- **The file-name sanitiser**: its result is safe, whatever the name, and sanitising it once
more changes nothing. -/
theorem sanitizeFileName_safe (name : Text) :
    SafeFileName (sanitizeFileName (some (.str name))) ∧
      sanitizeFileName (some (.str (sanitizeFileName (some (.str name))))) =
        sanitizeFileName (some (.str name)) := by
  have hsafe := safeFileName_sanitize name
  exact ⟨hsafe, sanitizeFileName_of_safe hsafe⟩

/-! ### Names that are well formed -/

/-- A character is one code unit, or two that are no character. -/
theorem utf16_cases (c : Char) :
    utf16 c = [c.toNat.toUInt16] ∧ c.toNat < 0x10000 ∨
      ∃ high low : UInt16, utf16 c = [high, low] ∧ 0xD800 ≤ high.toNat ∧ 0xD800 ≤ low.toNat := by
  have hc : c.toNat < 0x110000 := by
    obtain hlow | ⟨-, hhigh⟩ := c.valid
    · exact hlow.trans (by decide)
    · exact hhigh
  rw [utf16]
  split
  · next hone => exact .inl ⟨rfl, hone⟩
  · next htwo =>
    refine .inr ⟨_, _, rfl, ?_, ?_⟩
    · rw [Nat.toUInt16, UInt16.toNat_ofNat']
      omega
    · rw [Nat.toUInt16, UInt16.toNat_ofNat']
      omega

/-- The code of a character below the surrogates. -/
theorem mem_utf16 {c d : Char} (hd : d.toNat < 0xD800) : d.toNat.toUInt16 ∈ utf16 c ↔ c = d := by
  have hcode : d.toNat.toUInt16.toNat = d.toNat := by
    rw [Nat.toUInt16, UInt16.toNat_ofNat']
    omega
  obtain ⟨hone, hc⟩ | ⟨high, low, htwo, hhigh, hlow⟩ := utf16_cases c
  · rw [hone, List.mem_singleton]
    constructor
    · intro heq
      have hnat := congrArg UInt16.toNat heq
      rw [hcode, Nat.toUInt16, UInt16.toNat_ofNat'] at hnat
      refine Char.toNat_inj.mp ?_
      omega
    · rintro rfl
      rfl
  · rw [htwo]
    refine iff_of_false (fun hmem => ?_) ?_
    · obtain heq | hmem' := List.mem_cons.mp hmem
      · rw [← heq] at hhigh
        omega
      · rw [← List.mem_singleton.mp hmem'] at hlow
        omega
    · rintro rfl
      rw [utf16, if_pos (by omega)] at htwo
      cases htwo

theorem codes_dot : Codes utf16 '.' dot where
  single := rfl
  apart c hc := by
    refine ⟨?_, fun hdot => hc ?_⟩
    · obtain ⟨hone, -⟩ | ⟨high, low, htwo, -⟩ := utf16_cases c
      · simp [hone]
      · simp [htwo]
    · exact (mem_utf16 (d := '.') (by decide)).mp hdot

/-- A character of paths, by its code. -/
theorem mem_pathUnits_iff {c : Char} :
    (∃ unit ∈ utf16 c, unit ∈ pathUnits) ↔ isPathChar c = true := by
  have hunits : pathUnits = ['/', '\\', ':', Char.ofNat 0].map fun d => d.toNat.toUInt16 := by
    decide
  have hlow : ∀ d ∈ ['/', '\\', ':', Char.ofNat 0], d.toNat < 0xD800 := by simp
  have hchars : isPathChar c = true ↔ c ∈ ['/', '\\', ':', Char.ofNat 0] := by
    simp [isPathChar, or_assoc]
  rw [hchars, hunits]
  constructor
  · rintro ⟨unit, hunit, hpath⟩
    obtain ⟨d, hd, rfl⟩ := List.mem_map.mp hpath
    rwa [(mem_utf16 (hlow d hd)).mp hunit]
  · exact fun hc => ⟨_, (mem_utf16 (hlow c hc)).mpr rfl, List.mem_map_of_mem hc⟩

theorem utf16_replace (c : Char) :
    utf16 (if isPathChar c then '_' else c) = (utf16 c).map replacePathUnit := by
  split
  · next hpath =>
    have hfour : c = '/' ∨ c = '\\' ∨ c = ':' ∨ c = Char.ofNat 0 := by
      simpa [isPathChar, or_assoc] using hpath
    obtain rfl | rfl | rfl | rfl := hfour <;> decide
  · next hplain =>
    refine ((List.map_congr_left fun unit hunit => ?_).trans (List.map_id _)).symm
    exact if_neg fun hpath => hplain (mem_pathUnits_iff.mp ⟨unit, hunit, hpath⟩)

theorem dropDotDot_chars (name : List Char) : Client.dropDotDot name = dropDoubles '.' name := by
  refine eq_dropDoubles rfl (fun rest => rfl) (fun c rest hsingle => ?_) name
  rw [Client.dropDotDot]
  rintro rest' hc rfl
  exact hsingle hc rfl

/-- **A well-formed name** is sanitised in both models alike. -/
theorem sanitizeFileName_codeUnits (name : String) :
    Client.sanitizeFileName (some name) =
      sanitizeFileName (some (.str (codeUnits name.toList))) := by
  have hkept : codeUnits ((Client.dropDotDot name.toList).map
      fun c => if isPathChar c then '_' else c) =
        (dropDoubles dot (codeUnits name.toList)).map replacePathUnit := by
    rw [codeUnits, codeUnits, ← flatMap_dropDoubles codes_dot, dropDotDot_chars, List.flatMap_map,
      List.map_flatMap]
    exact List.flatMap_congr fun c _ => utf16_replace c
  have hfile : codeUnits "file".toList = text "file" := by decide
  rw [Client.sanitizeFileName, sanitizeFileName_str]
  dsimp only
  rw [hkept, hfile]
  split
  · next hempty =>
    rw [hempty]
    rfl
  · rfl

end TrapChat.Client.MediaInput
