import Provenance.Proofs.Assembly

/-!
# The text of an interface

The file of an interface is read by others, who see its text and not the value that was written. The
text has three members, in this order: the name of the program, the names of its fragments and the
names of its getters (`Interface.pretty_toJson`). Every name of a list stands on a line of its own.
A list without names is closed where it is opened.
-/

namespace Provenance.Interface

/-- A name between quotes. -/
def quoted (name : String) : String := String.ofList (Json.quote name)

/-- A list of names, one to a line. -/
def nameLines : List String → String
  | [] => "[]"
  | first :: rest => "[\n    " ++ ",\n    ".intercalate ((first :: rest).map quoted) ++ "\n  ]"

/-- The text of an interface, one member or name to a line. -/
def prettyText (i : Interface) : String :=
  "\x7b\n  \"name\": " ++ quoted i.name ++
    ",\n  \"functions\": " ++ nameLines i.functions ++
    ",\n  \"getters\": " ++ nameLines i.getters ++ "\n\x7d"

/-- The further names of a list, and its end. -/
theorem ofList_writeItems (names : List String) :
    String.ofList (Json.writeItems .pretty 1 (names.map .text)) =
      String.join ((names.map quoted).map (",\n    " ++ ·)) ++ "\n  ]" := by
  induction names with
  | nil =>
    rw [List.map_nil, Json.writeItems, List.map_nil, List.map_nil, String.join_nil,
      String.empty_append]
    rfl
  | cons name rest ih =>
    have hname : Json.writeItems .pretty 1 ((name :: rest).map .text) =
        ",\n    ".toList ++ Json.quote name ++ Json.writeItems .pretty 1 (rest.map .text) := by
      rw [List.map_cons, Json.writeItems, Json.write]
      rfl
    rw [hname, List.map_cons, List.map_cons, String.join_cons]
    simp only [String.ofList_append, String.ofList_toList, ih, quoted, String.append_assoc]

theorem ofList_write_list (names : List String) :
    String.ofList ((Json.list (names.map .text)).write .pretty 1) = nameLines names := by
  cases names with
  | nil =>
    rw [List.map_nil, Json.write]
    rfl
  | cons first rest =>
    have hfirst : (Json.list ((first :: rest).map .text)).write .pretty 1 =
        "[\n    ".toList ++ Json.quote first ++ Json.writeItems .pretty 1 (rest.map .text) := by
      rw [List.map_cons, Json.write, Json.write]
      rfl
    rw [hfirst, nameLines, List.map_cons, intercalate_cons_eq_append_join]
    simp only [String.ofList_append, String.ofList_toList, ofList_writeItems, quoted,
      String.append_assoc]

/-- **The text of an interface** holds its three members line by line. -/
theorem pretty_toJson (i : Interface) : i.toJson.pretty = i.prettyText := by
  have htext : i.toJson.write .pretty 0 =
      "\x7b\n  \"name\": ".toList ++ Json.quote i.name ++
        (",\n  \"functions\": ".toList ++ (Json.list (i.functions.map .text)).write .pretty 1 ++
        (",\n  \"getters\": ".toList ++ (Json.list (i.getters.map .text)).write .pretty 1 ++
          "\n\x7d".toList)) := by
    simp only [toJson, Json.write, Json.writeMembers]
    rfl
  rw [Json.pretty, htext]
  unfold prettyText
  simp only [String.ofList_append, String.ofList_toList, ofList_write_list, quoted,
    String.append_assoc]

example : (⟨"Main", ["get", "set"], []⟩ : Interface).toJson.pretty =
    "\x7b\n  \"name\": \"Main\",\n  \"functions\": [\n    \"get\",\n    \"set\"\n  ],\n" ++
      "  \"getters\": []\n\x7d" := by
  decide +kernel

end Provenance.Interface
