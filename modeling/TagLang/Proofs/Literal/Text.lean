import TagLang.Literal.Value
import TagLang.Proofs.Text.Bytes
import TagLang.Proofs.Text.Content

/-!
# The value of a text literal

A text literal stands for what its content means. It has a value unless an escape in it is
the code of a surrogate: no other item of the grammar fails to be decoded.
-/

namespace TagLang

namespace Literal

variable {f : TextForm} {t : Token} {body : List Char} {items : List TextItem}

/-- The value of a literal of text is what stands between its delimiters, decoded. -/
theorem text?_delimited (text : t.text.toList = f.delimiter ++ body ++ f.delimiter) :
    (Literal.mk (.ofForm f.literal) t).text? = (Text.unescape? body).map String.ofList := by
  have quotes : (Literal.mk (.ofForm f.literal) t).text? =
      ((Text.stripBytes? (Text.size f.delimiter) t.text.toList).bind Text.unescape?).map
        String.ofList := by
    obtain ⟨q, multiline⟩ := f
    cases q <;> cases multiline <;> rfl
  rw [quotes, text, Text.stripBytes?_append rfl, Option.bind_some]

theorem text?_written (fits : ∀ i ∈ items, i.Fits f)
    (text : t.text.toList = f.delimiter ++ TextItem.written items ++ f.delimiter) :
    (Literal.mk (.ofForm f.literal) t).text? =
      if ∀ i ∈ items, i.Scalar then some (String.ofList (items.flatMap TextItem.meaning))
      else none := by
  rw [text?_delimited text, TextItem.unescape?_written fits]
  split <;> rfl

end Literal

end TagLang
