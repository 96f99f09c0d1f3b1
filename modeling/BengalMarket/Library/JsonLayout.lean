import BengalMarket.Library.JsonText

namespace JsonText

def isSpace (byte : UInt8) : Bool :=
  byte == 0x20 || byte == 0x09 || byte == 0x0A || byte == 0x0D

def Blank (text : List UInt8) : Prop := ∀ byte ∈ text, isSpace byte = true

/-- What stands before an element or a closing bracket, by its depth, and behind a colon. -/
structure Layout where
  line : Nat → List UInt8
  colon : List UInt8
  blank_line : ∀ depth, Blank (line depth)
  blank_colon : Blank colon

theorem blank_nil : Blank [] := fun _ h => absurd h List.not_mem_nil

theorem blank_indent (width : Nat) : Blank (0x0A :: List.replicate width 0x20) := by
  intro byte h
  rcases List.mem_cons.1 h with rfl | h
  · rfl
  · rw [List.eq_of_mem_replicate h]
    rfl

theorem blank_space : Blank [0x20] := by
  intro byte h
  rw [List.mem_singleton.1 h]
  rfl

def Layout.compact : Layout := ⟨fun _ => [], [], fun _ => blank_nil, blank_nil⟩

@[simp] theorem Layout.compact_line (depth : Nat) : Layout.compact.line depth = [] := rfl

@[simp] theorem Layout.compact_colon : Layout.compact.colon = [] := rfl

def Layout.indented (step : Nat) : Layout where
  line depth := 0x0A :: List.replicate (step * depth) 0x20
  colon := [0x20]
  blank_line depth := blank_indent (step * depth)
  blank_colon := blank_space

variable {Double : Type} (double : Double → List UInt8) (L : Layout)

mutual

def layout (depth : Nat) : Json Double → List UInt8
  | .array (value :: rest) =>
    0x5B :: (L.line (depth + 1) ++ (layout (depth + 1) value ++ layoutElements depth rest))
  | .object ((key, value) :: rest) =>
    0x7B :: (L.line (depth + 1) ++ (string key ++
      0x3A :: (L.colon ++ (layout (depth + 1) value ++ layoutMembers depth rest))))
  | value => render double value

def layoutElements (depth : Nat) : List (Json Double) → List UInt8
  | [] => L.line depth ++ [0x5D]
  | value :: rest =>
    0x2C :: (L.line (depth + 1) ++ (layout (depth + 1) value ++ layoutElements depth rest))

def layoutMembers (depth : Nat) : List (List UInt8 × Json Double) → List UInt8
  | [] => L.line depth ++ [0x7D]
  | (key, value) :: rest =>
    0x2C :: (L.line (depth + 1) ++ (string key ++
      0x3A :: (L.colon ++ (layout (depth + 1) value ++ layoutMembers depth rest))))

end

def indented (step : Nat) (value : Json Double) : List UInt8 :=
  layout (fun _ => []) (.indented step) 0 value

mutual

theorem layout_compact (depth : Nat) (value : Json Double) :
    layout double .compact depth value = render double value := by
  match value with
  | .array (value :: rest) =>
    simp only [layout, render, layout_compact, layoutElements_compact, Layout.compact_line,
      List.nil_append]
  | .object ((key, value) :: rest) =>
    simp only [layout, render, layout_compact, layoutMembers_compact, Layout.compact_line,
      Layout.compact_colon, List.nil_append]
  | .null | .bool _ | .unsigned _ | .integer _ | .float _ | .string _ | .array [] | .object [] =>
    rfl

theorem layoutElements_compact (depth : Nat) (values : List (Json Double)) :
    layoutElements double .compact depth values = renderElements double values := by
  match values with
  | [] => rfl
  | value :: rest =>
    simp only [layoutElements, renderElements, layout_compact, layoutElements_compact,
      Layout.compact_line, List.nil_append]

theorem layoutMembers_compact (depth : Nat) (members : List (List UInt8 × Json Double)) :
    layoutMembers double .compact depth members = renderMembers double members := by
  match members with
  | [] => rfl
  | (key, value) :: rest =>
    simp only [layoutMembers, renderMembers, layout_compact, layoutMembers_compact,
      Layout.compact_line, Layout.compact_colon, List.nil_append]

end

end JsonText

/-- What `dump(step)` of a library and its parser promise for values without doubles. -/
structure JsonLibrary.Indents (J : JsonLibrary)
    (dumpIndented : Nat → J.Value → Except String (List UInt8)) : Prop where
  dump : ∀ step value, JsonText.printable value = true →
    dumpIndented step value = .ok (JsonText.indented step value)
  refuse : ∀ step value, JsonText.doubleFree value = true → JsonText.printable value = false →
    ∃ what, dumpIndented step value = .error what
  parse : ∀ step value space, JsonText.canonical value = true → JsonText.Blank space →
    J.parse (JsonText.indented step value ++ space) = some value
