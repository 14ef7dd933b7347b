import ExecutionNode.Text.Basic

/-!
# Text as bytes

Files hold text as UTF-8. Every text has its bytes, and bytes that are no UTF-8 have no text.
-/

namespace ExecutionNode.Text

def toUtf8 (t : Text) : List UInt8 := (String.ofList t).toUTF8.data.toList

def ofUtf8? (bytes : List UInt8) : Option Text :=
  (String.fromUTF8? ⟨bytes.toArray⟩).map String.toList

@[simp] theorem ofUtf8?_toUtf8 (t : Text) : ofUtf8? (toUtf8 t) = some t := by
  have h : String.fromUTF8? (String.ofList t).toUTF8 = some (String.ofList t) :=
    dif_pos (String.ofList t).isValidUTF8
  have hbytes : (⟨(toUtf8 t).toArray⟩ : ByteArray) = (String.ofList t).toUTF8 := by
    simp [toUtf8]
  rw [ofUtf8?, hbytes, h, Option.map_some, String.toList_ofList]

end ExecutionNode.Text
