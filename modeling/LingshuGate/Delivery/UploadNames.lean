import LingshuGate.Delivery.Journal
import LingshuGate.Lib.Check
import LingshuGate.Lib.PyText

/-!
# The file name of an uploaded archive (`project_delivery_mcp.py`, `project_uploads.py`)

| here | there |
| --- | --- |
| `Casing`                 | `str.lower`, `str.casefold` |
| `uploadBeginInput`       | the field `filename` of `UploadBeginInput` (project_delivery_mcp.py:85) |
| `projectUploadBegin`     | the name that `project_upload_begin` (1155) stores with the transfer |
| `commitUploadMarker`     | `_commit_upload_marker` (838) |
| `validateUploadFilename` | `_validate_upload_filename` (project_uploads.py:398) |
| `saveZip`                | `save_zip_stream` (53): the check of the name, then the archive |

An upload is started under one rule and committed under another, which sees the name behind a marker of 48 characters. A name
of more than 207 characters, or one with a control character inside, can be uploaded to the last byte and never be committed:
`commit_iff`.
-/

namespace LingshuGate.Delivery

open Lib

/-- Lower case and case folding, as far as the names need them: what is lowered to `.zip` is `.zip` in ASCII letters, and these
are folded to their lower case. -/
structure Casing where
  lower : String → String
  fold : Char → List Char
  lower_zip : ∀ s, Py.endsWith (lower s) ".zip" = true →
    ∃ start ending, s.toList = start ++ ending ∧ (∀ c ∈ ending, c.toNat < 128) ∧ ending.map Char.toLower = ['.', 'z', 'i', 'p']
  fold_ascii : ∀ c, c.toNat < 128 → fold c = [c.toLower]

/-- `str.casefold` goes character by character. -/
def Casing.casefold (x : Casing) (s : String) : String := String.ofList (s.toList.flatMap x.fold)

def invalidArguments : ToolError where
  code := "invalid_arguments"
  message := "工具参数校验失败"
  nextAction := "修正 details.violations 中列出的字段后，使用新的幂等键重试写操作。"

def invalidArchiveName : ToolError where
  code := "invalid_archive_name"
  message := "filename 必须是没有路径片段的 .zip 文件名"
  nextAction := "使用本地 ZIP 的基本文件名重新发起上传。"

/-- `Field(min_length=1, max_length=255)` -/
def uploadBeginInput (filename : String) : Except ToolError Unit :=
  require (1 ≤ filename.length && filename.length ≤ 255) invalidArguments

def projectUploadBegin (x : Casing) (filename : String) : Except ToolError String := do
  uploadBeginInput filename
  let filename := Py.strip filename
  require (Py.endsWith (x.lower filename) ".zip" && filename ∉ [".", ".."] && '/' ∉ filename.toList && '\\' ∉ filename.toList)
    invalidArchiveName
  return filename

def commitUploadMarker (transferId filename : String) : String := ".gate-transfer-" ++ transferId ++ "-" ++ filename

def isControl (c : Char) : Bool := c.toNat < 32 || c.toNat = 127

def validateUploadFilename (x : Casing) (filename : String) : Except String Unit :=
  require (filename ≠ "" && filename.length ≤ 255 && Py.endsWith (x.casefold filename) ".zip" && !filename.toList.any isControl)
    "upload filename must be a valid .zip name"

/-- `archive` is what the rest makes of the bytes: the validation, the extraction and the analysis. -/
def saveZip {α : Type} (x : Casing) (filename : String) (archive : Except String α) : Except String α := do
  validateUploadFilename x filename
  archive

/-- `uuid4().hex` -/
def isUuidHex (s : String) : Bool := s.length = 32 && s.toList.all fun c => c.isDigit || ('a' ≤ c && c ≤ 'f')

/-! ## From the start to the commit -/

variable {x : Casing} {filename name transferId : String}

theorem projectUploadBegin_ok : projectUploadBegin x filename = .ok name ↔
    (1 ≤ filename.length ∧ filename.length ≤ 255) ∧ name = Py.strip filename ∧ Py.endsWith (x.lower name) ".zip" = true ∧
      name ∉ [".", ".."] ∧ '/' ∉ name.toList ∧ '\\' ∉ name.toList := by
  simp only [projectUploadBegin, uploadBeginInput, bind_eq_ok, pure_eq_ok, require_eq_ok, Bool.and_eq_true, decide_eq_true_eq]
  constructor
  · rintro ⟨-, hlength, -, ⟨⟨⟨hzip, hdots⟩, hslash⟩, hback⟩, rfl⟩
    exact ⟨hlength, rfl, hzip, hdots, hslash, hback⟩
  · rintro ⟨hlength, rfl, hzip, hdots, hslash, hback⟩
    exact ⟨(), hlength, (), ⟨⟨⟨hzip, hdots⟩, hslash⟩, hback⟩, rfl⟩

/-- What is lowered to `.zip` is folded to it, whatever stands before. -/
theorem casefold_zip (front : String) (h : Py.endsWith (x.lower name) ".zip" = true) :
    Py.endsWith (x.casefold (front ++ name)) ".zip" = true := by
  obtain ⟨start, ending, hname, hascii, hending⟩ := x.lower_zip name h
  have hfold : ending.flatMap x.fold = ".zip".toList := by
    have hzip : ".zip".toList = ['.', 'z', 'i', 'p'] := by decide
    rw [hzip, ← hending, List.flatMap_congr fun c hc => x.fold_ascii c (hascii c hc)]
    exact List.flatMap_pure_eq_map Char.toLower ending
  refine List.isSuffixOf_iff_suffix.mpr ⟨front.toList.flatMap x.fold ++ start.flatMap x.fold, ?_⟩
  rw [Casing.casefold, String.toList_append, hname, List.flatMap_append, List.flatMap_append, hfold, List.append_assoc]
  exact String.toList_ofList.symm

theorem length_marker (hid : isUuidHex transferId = true) : (commitUploadMarker transferId name).length = 48 + name.length := by
  rw [isUuidHex, Bool.and_eq_true, decide_eq_true_eq] at hid
  have hfront : ".gate-transfer-".length = 15 := by decide
  have hdash : "-".length = 1 := by decide
  unfold commitUploadMarker
  rw [String.length_append, String.length_append, String.length_append, hfront, hdash]
  omega

/-- The marker itself holds no control character. -/
theorem control_marker (hid : isUuidHex transferId = true) :
    (commitUploadMarker transferId name).toList.any isControl = name.toList.any isControl := by
  obtain ⟨-, hhex⟩ : _ ∧ ∀ c ∈ transferId.toList, (c.isDigit = true ∨ 'a' ≤ c ∧ c ≤ 'f') := by simpa [isUuidHex] using hid
  have hclean : transferId.toList.any isControl = false := by
    rw [List.any_eq_false]
    intro c hc
    have hrange : 48 ≤ c.toNat ∧ c.toNat ≤ 102 := by
      rcases hhex c hc with hdigit | ⟨ha, hf⟩
      · rw [Char.isDigit, Bool.and_eq_true, decide_eq_true_eq, decide_eq_true_eq] at hdigit
        exact ⟨hdigit.1, Nat.le_trans hdigit.2 (by decide)⟩
      · exact ⟨Nat.le_trans (by decide) ha, hf⟩
    simp only [isControl, Bool.or_eq_true, decide_eq_true_eq, not_or]
    omega
  have hfront : ".gate-transfer-".toList.any isControl = false := by decide
  have hdash : "-".toList.any isControl = false := by decide
  unfold commitUploadMarker
  rw [String.toList_append, String.toList_append, String.toList_append, List.any_append, List.any_append,
    List.any_append, hfront, hclean, hdash]
  rfl

/-- **Which started uploads can be committed**: those whose name, stripped, has at most 207 characters and no control character.
For these the commit ends as the archive does. -/
theorem commit_iff (hbegin : projectUploadBegin x filename = .ok name) (hid : isUuidHex transferId = true) :
    (validateUploadFilename x (commitUploadMarker transferId name) = .ok () ∧
      ∀ archive : Except String Unit, saveZip x (commitUploadMarker transferId name) archive = archive) ↔
    name.length ≤ 207 ∧ ∀ c ∈ name.toList, isControl c = false := by
  have hzip := casefold_zip (".gate-transfer-" ++ transferId ++ "-") (projectUploadBegin_ok.mp hbegin).2.2.1
  have hne : commitUploadMarker transferId name ≠ "" := by
    intro hempty
    have hlength := @length_marker name transferId hid
    rw [hempty, String.length_empty] at hlength
    omega
  have hvalid : validateUploadFilename x (commitUploadMarker transferId name) = .ok () ↔
      name.length ≤ 207 ∧ ∀ c ∈ name.toList, isControl c = false := by
    rw [validateUploadFilename, require_eq_ok, control_marker hid, length_marker hid]
    simp only [Bool.and_eq_true, decide_eq_true_eq, Bool.not_eq_true', List.any_eq_false, Bool.not_eq_true]
    constructor
    · rintro ⟨⟨⟨-, hlength⟩, -⟩, hcontrol⟩
      exact ⟨by omega, hcontrol⟩
    · rintro ⟨hlength, hcontrol⟩
      exact ⟨⟨⟨hne, by omega⟩, hzip⟩, hcontrol⟩
  constructor
  · rintro ⟨hok, -⟩
    exact hvalid.mp hok
  · intro hname
    refine ⟨hvalid.mpr hname, fun archive => ?_⟩
    rw [saveZip, hvalid.mpr hname]
    rfl

/-- ASCII only. -/
def asciiCasing : Casing where
  lower := fun s => if s.toList.all fun c => c.toNat < 128 then String.ofList (s.toList.map Char.toLower) else ""
  fold := fun c => [c.toLower]
  lower_zip := by
    intro s h
    by_cases hascii : (s.toList.all fun c => c.toNat < 128) = true
    · rw [if_pos hascii, Py.endsWith, List.isSuffixOf_iff_suffix] at h
      obtain ⟨front, hfront⟩ := h
      rw [String.toList_ofList] at hfront
      have hfront : front ++ ['.', 'z', 'i', 'p'] = s.toList.map Char.toLower := by simpa using hfront
      obtain ⟨start, ending, hs, -, hending⟩ := List.map_eq_append_iff.mp hfront.symm
      refine ⟨start, ending, hs, ?_, hending⟩
      intro c hc
      have hall := List.all_eq_true.mp hascii c (hs ▸ List.mem_append_right start hc)
      exact of_decide_eq_true hall
    · rw [if_neg hascii] at h
      exact absurd h (by decide)
  fold_ascii := fun _ _ => rfl

def transferHex : String := "0123456789abcdef0123456789abcdef"

theorem commit_iff_short : (validateUploadFilename asciiCasing (commitUploadMarker transferHex "a.zip") = .ok () ∧
      ∀ archive : Except String Unit, saveZip asciiCasing (commitUploadMarker transferHex "a.zip") archive = archive) ↔
    "a.zip".length ≤ 207 ∧ ∀ c ∈ "a.zip".toList, isControl c = false :=
  commit_iff (projectUploadBegin_ok.mpr (by decide +kernel : (1 ≤ " a.zip".length ∧ _) ∧ _)) (by decide +kernel)

/-- A tab inside the name: the upload is started, and its archive is refused for its name. -/
theorem tab_never_committed : projectUploadBegin asciiCasing "a	b.zip" = .ok "a	b.zip" ∧
    saveZip asciiCasing (commitUploadMarker transferHex "a	b.zip") (.ok ()) =
      .error "upload filename must be a valid .zip name" := by
  have hinvalid : validateUploadFilename asciiCasing (commitUploadMarker transferHex "a\tb.zip") =
      .error "upload filename must be a valid .zip name" := by
    decide +kernel
  refine ⟨projectUploadBegin_ok.mpr (by decide +kernel), ?_⟩
  rw [saveZip, hinvalid]
  rfl

end LingshuGate.Delivery
