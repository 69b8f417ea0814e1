namespace IdlDirectives.Text

/-- The characters with the Unicode property `White_Space`. -/
def isBlank (c : Char) : Bool :=
  let code := c.toNat
  (0x09 ≤ code && code ≤ 0x0D) || code == 0x20 || code == 0x85 || code == 0xA0 || code == 0x1680 ||
    (0x2000 ≤ code && code ≤ 0x200A) || code == 0x2028 || code == 0x2029 || code == 0x202F ||
    code == 0x205F || code == 0x3000

def trimStart (cs : List Char) : List Char :=
  cs.dropWhile isBlank

def trimEnd (cs : List Char) : List Char :=
  (cs.reverse.dropWhile isBlank).reverse

def trim (cs : List Char) : List Char :=
  trimEnd (trimStart cs)

def words (cs : List Char) : List (List Char) :=
  (cs.splitOnP isBlank).filter (fun piece => !piece.isEmpty)

def lines (cs : List Char) : List (List Char) :=
  cs.splitOnP (· == '\n')

theorem words_append_cons {blank : Char} (h : isBlank blank = true) (before after : List Char) :
    words (before ++ blank :: after) = words before ++ words after := by
  simp [words, List.splitOnP_append_cons before after h]

theorem words_eq_singleton {cs : List Char} (nonempty : cs ≠ [])
    (h : ∀ c ∈ cs, isBlank c = false) : words cs = [cs] := by
  simp [words, List.splitOnP_eq_singleton h, nonempty]

theorem lines_append_cons (before after : List Char) :
    lines (before ++ '\n' :: after) = lines before ++ lines after := by
  simp [lines, List.splitOnP_append_cons before after]

end IdlDirectives.Text
