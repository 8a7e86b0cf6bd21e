import ShaderVariants.Proofs.Resource.RoundTrip
import ShaderVariants.Proofs.Store.Contents
import ShaderVariants.Resource.File

/-!
# Resource tables in files

A resource table is saved by writing its text (`save_eq_ok`), and loaded from it again
(`load_of_content`). So what was saved is there, unless a device took it (`load_of_save`).
-/

namespace ShaderVariants.ResourceBundle

open Store (Edit)

variable {s t : Store} {p : Path} {b : ResourceBundle}

/-- A resource table is saved by writing its text. -/
theorem save_eq_ok (h : b.save s p = .ok t) :
    ∃ e, s.writing p (.text b.text) = .ok e ∧ t = e.on s := by
  rw [save, Sequence.mapError_eq_ok_iff] at h
  have hslash : Path.endsInSlash p = false := Store.endsInSlash_of_writeContent h
  rw [Store.write, Store.writeContent_eq hslash, Sequence.map_eq_ok_iff] at h
  obtain ⟨e, he, rfl⟩ := h
  exact ⟨e, he, rfl⟩

/-- A resource table is saved where its text can be written. -/
theorem save_of_find {place : Place} {e : Edit} (hslash : Path.endsInSlash p = false)
    (hfind : s.find p true = .ok place) (hedit : Store.writeEdit (.text b.text) place = .ok e) :
    b.save s p = .ok (e.on s) := by
  rw [save, Store.write_of_find hslash hfind hedit]
  rfl

/-- A resource table is loaded from a file that holds its text. -/
theorem load_of_content (h : s.content p = .ok (.text b.text)) : load s p = .ok b := by
  have hread : s.read p = .ok b.text := Store.read_eq_ok_iff.2 h
  have htext : ofText b.text = .ok b := by
    rw [ofText, text, Json.Document.read_print _ b.whole_value, b.read_value]
  rw [load, hread]
  show (ofText b.text).mapError _ = _
  rw [htext]
  rfl

/-- A resource table that was saved is loaded again, unless a device took it. -/
theorem load_of_save (h : b.save s p = .ok t)
    (hdevice : ∀ l, s.find p true ≠ .ok ⟨l, some .device⟩) : load t p = .ok b := by
  obtain ⟨e, he, rfl⟩ := save_eq_ok h
  exact load_of_content (Store.content_of_writing he hdevice)

/-- What a device holds is no document. -/
theorem load_of_find_device {l : Location} (hdevice : s.find p true = .ok ⟨l, some .device⟩) :
    load s p = .error (.unread (.fault .truncated)) := by
  have hread : s.read p = .ok "" := Store.read_eq_ok_iff.2 (Store.content_of_find_device hdevice)
  have hempty : ofText "" = .error (.fault .truncated) := by
    rw [ofText, Json.Document.read, Json.Document.ofText_empty]
    rfl
  rw [load, hread]
  show (ofText "").mapError _ = _
  rw [hempty]
  rfl

/-- What was saved to a device cannot be loaded. -/
theorem load_of_save_device {l : Location} (h : b.save s p = .ok t)
    (hdevice : s.find p true = .ok ⟨l, some .device⟩) :
    load t p = .error (.unread (.fault .truncated)) := by
  obtain ⟨e, he, rfl⟩ := save_eq_ok h
  rw [Store.writing, hdevice] at he
  obtain rfl : .keep = e := Except.ok.inj he
  exact load_of_find_device hdevice

end ShaderVariants.ResourceBundle
