import Mathlib.Data.List.Forall2
import FormDesigner.Proofs.Json.Lexing

/-!
Reading a printed JSON text.

A reader that waits for a value takes the tokens of the value and hands it to the innermost
open array or object.  So it comes through the tokens of all items and members, one after the
other.
-/

namespace FormDesigner

namespace Json

mutual

/-- What has a text from which it can be read: integers have 64 bits, and decimals are finite and
meet a condition. -/
def Printable (keeps : Number → Prop) : Json → Prop
  | .array items => PrintableItems keeps items
  | .object members => PrintableMembers keeps members
  | .integer n => -(2 ^ 63) ≤ n ∧ n < 2 ^ 64
  | .decimal x => x.isFinite = true ∧ keeps x
  | .unreadable => False
  | _ => True

def PrintableItems (keeps : Number → Prop) : List Json → Prop
  | [] => True
  | item :: rest => Printable keeps item ∧ PrintableItems keeps rest

def PrintableMembers (keeps : Number → Prop) : List (String × Json) → Prop
  | [] => True
  | (_, value) :: rest => Printable keeps value ∧ PrintableMembers keeps rest

end

mutual

/-- What the text of a value is read as: texts and names as they are, and every other word as
that word is read. -/
def reread? : Json → Option Json
  | .array items => (rereadItems? items).map .array
  | .object members => (rereadMembers? members).map .object
  | .string text => some (.string text)
  | scalar => ofWord? scalar.writeScalar

def rereadItems? : List Json → Option (List Json)
  | [] => some []
  | item :: rest => (reread? item).bind fun other => (rereadItems? rest).map (other :: ·)

def rereadMembers? : List (String × Json) → Option (List (String × Json))
  | [] => some []
  | (name, value) :: rest =>
      (reread? value).bind fun other => (rereadMembers? rest).map ((name, other) :: ·)

end

/-- The text of a decimal is read as the same decimal. -/
def ReadsBack (x : Number) : Prop :=
  ofWord? (decimalStyle.write x) = some (.decimal x)

theorem reread?_decimal {x : Number} (hfinite : x.isFinite = true) :
    (decimal x).reread? = ofWord? (decimalStyle.write x) := by
  rw [reread?, writeScalar, if_pos hfinite]
  all_goals simp

mutual

/-- A value whose decimals are read back is read as itself. -/
theorem reread?_of_printable : ∀ json : Json, json.Printable ReadsBack → json.reread? = some json
  | .array items, h => by rw [reread?, rereadItems?_of_printable items h, Option.map_some]
  | .object members, h => by rw [reread?, rereadMembers?_of_printable members h, Option.map_some]
  | .string _, _ => rfl
  | .null, _ => rfl
  | .bool true, _ => rfl
  | .bool false, _ => rfl
  | .integer _, h => ofWord?_writeInteger h.1 h.2
  | .decimal _, h => (reread?_decimal h.1).trans h.2
  | .unreadable, h => h.elim

theorem rereadItems?_of_printable : ∀ items : List Json, PrintableItems ReadsBack items →
    rereadItems? items = some items
  | [], _ => rfl
  | item :: rest, h => by
      rw [rereadItems?, reread?_of_printable item h.1, Option.bind_some,
        rereadItems?_of_printable rest h.2, Option.map_some]

theorem rereadMembers?_of_printable : ∀ members : List (String × Json),
    PrintableMembers ReadsBack members → rereadMembers? members = some members
  | [], _ => rfl
  | (name, value) :: rest, h => by
      rw [rereadMembers?, reread?_of_printable value h.1, Option.bind_some,
        rereadMembers?_of_printable rest h.2, Option.map_some]

end

/-- What a reader has come to after some tokens. -/
def Reader.feedAll (reader : Reader) (tokens : List Token) : Option Reader :=
  tokens.foldlM Reader.feed reader

theorem Reader.feedAll_cons (reader : Reader) (token : Token) (rest : List Token) :
    reader.feedAll (token :: rest) = (reader.feed token).bind fun next => next.feedAll rest :=
  List.foldlM_cons

/-- A member with a name that can be read. -/
def named (member : String × Json) : Option String × Json := (some member.1, member.2)

theorem ofMembers_named (members : List (String × Json)) :
    ofMembers (members.map named) = .object members := by
  have hall : (members.map named).mapM (fun member : Option String × Json =>
      member.1.map (·, member.2)) = some members := by
    induction members with
    | nil => rfl
    | cons member rest ih =>
        rw [List.map_cons, List.mapM_cons, ih]
        rfl
  rw [ofMembers, hall]

/-- The tokens of a value do not start with the end of an array. -/
theorem exists_tokens (json : Json) :
    ∃ first rest, json.tokens = first :: rest ∧ first ≠ .closeArray := by
  cases json with
  | array items => exact ⟨_, _, tokens.eq_1 items, Token.noConfusion⟩
  | object members => exact ⟨_, _, tokens.eq_2 members, Token.noConfusion⟩
  | _ => exact ⟨_, [], by rw [tokens]; all_goals simp, by simp [scalarToken]⟩

/-- Where an array may end, a value may stand as well. -/
theorem feedAll_valueOrClose (json : Json) (stack : List Frame) (rest : List Token) :
    Reader.feedAll ⟨stack, .valueOrClose⟩ (json.tokens ++ rest) =
      Reader.feedAll ⟨stack, .value⟩ (json.tokens ++ rest) := by
  obtain ⟨first, others, htokens, hfirst⟩ := exists_tokens json
  rw [htokens, List.cons_append, Reader.feedAll_cons, Reader.feedAll_cons, Reader.feed, Reader.feed]
  simp only [hfirst, if_false]

theorem exists_itemTokens (item : Json) (others : List Json) :
    ∃ rest, itemTokens (item :: others) = item.tokens ++ rest := by
  cases others with
  | nil => exact ⟨[], by rw [itemTokens, List.append_nil]⟩
  | cons next others => exact ⟨_, itemTokens.eq_3 item (next :: others) (List.cons_ne_nil _ _)⟩

theorem exists_memberTokens (name : String) (value : Json) (others : List (String × Json)) :
    ∃ rest, memberTokens ((name, value) :: others) = .text (some name) :: rest := by
  cases others with
  | nil => exact ⟨_, memberTokens.eq_2 name value⟩
  | cons next others =>
      exact ⟨_, memberTokens.eq_3 name value (next :: others) (List.cons_ne_nil _ _)⟩

/-- A reader that waits for a name waits for the value behind it. -/
theorem feedAll_name (done : List (Option String × Json)) (stack : List Frame) (name : String)
    (rest : List Token) :
    Reader.feedAll ⟨.members done :: stack, .name⟩ (.text (some name) :: .colon :: rest) =
      Reader.feedAll ⟨.member done (some name) :: stack, .value⟩ rest :=
  rfl

theorem feedAll_scalar (json : Json) (hword : json.scalarToken = .word json.writeScalar)
    (stack : List Frame) (rest : List Token) :
    Reader.feedAll ⟨stack, .value⟩ ([json.scalarToken] ++ rest) =
      (ofWord? json.writeScalar).bind fun other =>
        (Reader.accept other stack).bind fun reader => reader.feedAll rest := by
  rw [List.singleton_append, Reader.feedAll_cons, hword, Reader.feed, Reader.startValue,
    Option.bind_assoc]

mutual

/-- A reader that waits for a value takes it from its tokens. -/
theorem feedAll_tokens : ∀ (json : Json) (stack : List Frame) (rest : List Token),
    Reader.feedAll ⟨stack, .value⟩ (json.tokens ++ rest) = json.reread?.bind fun other =>
      (Reader.accept other stack).bind fun reader => reader.feedAll rest
  | .array [], stack, rest => by
      rw [tokens, itemTokens]
      rfl
  | .array (item :: others), stack, rest => by
      obtain ⟨more, hmore⟩ := exists_itemTokens item others
      have hread := feedAll_items (item :: others) (List.cons_ne_nil _ _) [] stack rest
      rw [hmore, List.append_assoc] at hread
      rw [tokens, List.cons_append, List.append_assoc, Reader.feedAll_cons, hmore,
        List.append_assoc, reread?, Option.bind_map]
      -- In front of the first item the array might still end.
      exact (feedAll_valueOrClose item (.items [] :: stack) _).trans hread
  | .object [], stack, rest => by
      rw [tokens, memberTokens]
      rfl
  | .object ((name, value) :: others), stack, rest => by
      obtain ⟨more, hmore⟩ := exists_memberTokens name value others
      have hread := feedAll_members ((name, value) :: others) (List.cons_ne_nil _ _) [] stack rest
      rw [hmore] at hread
      rw [tokens, List.cons_append, List.append_assoc, Reader.feedAll_cons, hmore, reread?,
        Option.bind_map]
      exact hread
  | .string text, stack, rest => by
      rw [tokens]
      · rfl
      · simp
      · simp
  | .null, stack, rest => feedAll_scalar .null rfl stack rest
  | .bool b, stack, rest => feedAll_scalar (.bool b) rfl stack rest
  | .integer n, stack, rest => feedAll_scalar (.integer n) rfl stack rest
  | .decimal x, stack, rest => feedAll_scalar (.decimal x) rfl stack rest
  | .unreadable, stack, rest => feedAll_scalar .unreadable rfl stack rest

/-- A reader takes the items of an array, one after the other. -/
theorem feedAll_items : ∀ items : List Json, items ≠ [] →
    ∀ (done : List Json) (stack : List Frame) (rest : List Token),
      Reader.feedAll ⟨.items done :: stack, .value⟩ (itemTokens items ++ .closeArray :: rest) =
        (rereadItems? items).bind fun others =>
          (Reader.accept (.array (done.reverse ++ others)) stack).bind fun reader =>
            reader.feedAll rest
  | [], hnonempty, _, _, _ => absurd rfl hnonempty
  | [item], _, done, stack, rest => by
      rw [itemTokens, feedAll_tokens item, rereadItems?]
      cases reread? item with
      | none => rfl
      | some other =>
          rw [Option.bind_some, Option.bind_some, Reader.accept, Option.bind_some,
            Reader.feedAll_cons, rereadItems?, Option.map_some, Option.bind_some,
            ← List.reverse_cons]
          rfl
  | item :: next :: others, _, done, stack, rest => by
      rw [itemTokens, List.append_assoc, feedAll_tokens item, rereadItems?]
      · cases reread? item with
        | none => rfl
        | some other =>
            have hothers := feedAll_items (next :: others) (List.cons_ne_nil _ _) (other :: done)
              stack rest
            simp only [List.reverse_cons, List.append_assoc] at hothers
            rw [Option.bind_some, Option.bind_some, Reader.accept, Option.bind_some,
              List.cons_append, Reader.feedAll_cons, Option.bind_map]
            exact hothers
      · exact List.cons_ne_nil _ _

/-- A reader takes the members of an object, one after the other. -/
theorem feedAll_members : ∀ members : List (String × Json), members ≠ [] →
    ∀ (done : List (String × Json)) (stack : List Frame) (rest : List Token),
      Reader.feedAll ⟨.members (done.map named) :: stack, .name⟩
          (memberTokens members ++ .closeObject :: rest) =
        (rereadMembers? members).bind fun others =>
          (Reader.accept (.object (done.reverse ++ others)) stack).bind fun reader =>
            reader.feedAll rest
  | [], hnonempty, _, _, _ => absurd rfl hnonempty
  | [(name, value)], _, done, stack, rest => by
      rw [memberTokens, List.cons_append, List.cons_append, feedAll_name, feedAll_tokens value,
        rereadMembers?]
      cases reread? value with
      | none => rfl
      | some other =>
          have hclose : Reader.close (.members (((name, other) :: done).map named) :: stack)
              .closeObject = Reader.accept (.object (done.reverse ++ [(name, other)])) stack := by
            rw [Reader.close, ← List.map_reverse, ofMembers_named, List.reverse_cons]
          rw [Option.bind_some, Option.bind_some, Reader.accept, Option.bind_some,
            Reader.feedAll_cons, rereadMembers?, Option.map_some, Option.bind_some, ← hclose]
          rfl
  | (name, value) :: next :: others, _, done, stack, rest => by
      rw [memberTokens, List.cons_append, List.cons_append, feedAll_name, List.append_assoc,
        feedAll_tokens value, rereadMembers?]
      · cases reread? value with
        | none => rfl
        | some other =>
            have hothers := feedAll_members (next :: others) (List.cons_ne_nil _ _)
              ((name, other) :: done) stack rest
            simp only [List.reverse_cons, List.append_assoc] at hothers
            rw [Option.bind_some, Option.bind_some, Reader.accept, Option.bind_some,
              List.cons_append, Reader.feedAll_cons, Option.bind_map]
            exact hothers
      · exact List.cons_ne_nil _ _

end

/-- All texts of a value are read alike. -/
theorem read?_of_tokens {json : Json} {text : List Char} (h : tokens? text = some json.tokens) :
    read? (String.ofList text) = json.reread? := by
  have hread := feedAll_tokens json [] []
  rw [List.append_nil] at hread
  rw [read?, String.toList_ofList, h, Option.bind_some]
  refine (congrArg (fun reader => Option.bind reader Reader.finish) hread).trans ?_
  cases json.reread? with
  | none => rfl
  | some other => rfl

theorem read?_compact (json : Json) : read? json.compact = json.reread? :=
  read?_of_tokens (tokens?_write json)

theorem read?_pretty (json : Json) : read? json.pretty = json.reread? :=
  read?_of_tokens (tokens?_writeIndented json 0)

mutual

/-- How many arrays and objects are nested. -/
def depth : Json → Nat
  | .array items => depthItems items + 1
  | .object members => depthMembers members + 1
  | _ => 0

def depthItems : List Json → Nat
  | [] => 0
  | item :: rest => max (depth item) (depthItems rest)

def depthMembers : List (String × Json) → Nat
  | [] => 0
  | (_, value) :: rest => max (depth value) (depthMembers rest)

end

mutual

/-- What is printed and is not nested too deep can be read. -/
theorem readable_of_depth_le {keeps : Number → Prop} : ∀ (json : Json) {bound : Nat},
    json.Printable keeps → json.depth ≤ bound → json.readable bound = true
  | .array items, bound, h, hdepth => by
      rw [depth] at hdepth
      have hitems := readableItems_of_depth_le items h (Nat.le_sub_one_of_lt hdepth)
      simp [readable, hitems, Nat.zero_lt_of_lt hdepth]
  | .object members, bound, h, hdepth => by
      rw [depth] at hdepth
      have hmembers := readableMembers_of_depth_le members h (Nat.le_sub_one_of_lt hdepth)
      simp [readable, hmembers, Nat.zero_lt_of_lt hdepth]
  | .null, _, _, _ => rfl
  | .bool _, _, _, _ => rfl
  | .integer _, _, _, _ => rfl
  | .decimal _, _, _, _ => rfl
  | .string _, _, _, _ => rfl
  | .unreadable, _, h, _ => h.elim

theorem readableItems_of_depth_le {keeps : Number → Prop} : ∀ (items : List Json) {bound : Nat},
    PrintableItems keeps items → depthItems items ≤ bound → readableItems bound items = true
  | [], _, _, _ => rfl
  | item :: rest, bound, h, hdepth => by
      rw [depthItems, Nat.max_le] at hdepth
      rw [readableItems, readable_of_depth_le item h.1 hdepth.1,
        readableItems_of_depth_le rest h.2 hdepth.2]
      rfl

theorem readableMembers_of_depth_le {keeps : Number → Prop} :
    ∀ (members : List (String × Json)) {bound : Nat}, PrintableMembers keeps members →
      depthMembers members ≤ bound → readableMembers bound members = true
  | [], _, _, _ => rfl
  | (name, value) :: rest, bound, h, hdepth => by
      rw [depthMembers, Nat.max_le] at hdepth
      rw [readableMembers, readable_of_depth_le value h.1 hdepth.1,
        readableMembers_of_depth_le rest h.2 hdepth.2]
      rfl

end

/-! ### What a text is read as -/

/-- The text of a value is read as another one, which can be read if the first is not nested too
deep. -/
structure Rereads (json other : Json) : Prop where
  text : json.reread? = some other
  readable : ∀ bound, other.readable bound = true ↔ json.depth ≤ bound

/-- The texts of members are read under their own names. -/
def RereadsMembers : List (String × Json) → List (String × Json) → Prop :=
  List.Forall₂ fun member other => member.1 = other.1 ∧ Rereads member.2 other.2

/-- A word is read as a value that holds no other. -/
theorem rereads_scalar {json other : Json} (htext : json.reread? = some other)
    (hdepth : json.depth = 0) (hreadable : ∀ bound, other.readable bound = true) :
    Rereads json other where
  text := htext
  readable bound := by simp [hreadable, hdepth]

theorem rereads_array {items others : List Json} (h : List.Forall₂ Rereads items others) :
    Rereads (.array items) (.array others) := by
  have hitems : rereadItems? items = some others ∧
      ∀ bound, readableItems bound others = true ↔ depthItems items ≤ bound := by
    induction h with
    | nil => exact ⟨rfl, fun bound => by simp [readableItems, depthItems]⟩
    | cons hfirst hrest ih =>
        constructor
        · rw [rereadItems?, hfirst.text, Option.bind_some, ih.1, Option.map_some]
        · intro bound
          rw [readableItems, Bool.and_eq_true, hfirst.readable, ih.2, depthItems, Nat.max_le]
  constructor
  · rw [reread?, hitems.1, Option.map_some]
  · intro bound
    rw [readable, Bool.and_eq_true, decide_eq_true_eq, hitems.2, depth]
    omega

theorem rereads_object {members others : List (String × Json)} (h : RereadsMembers members others) :
    Rereads (.object members) (.object others) := by
  have hmembers : rereadMembers? members = some others ∧
      ∀ bound, readableMembers bound others = true ↔ depthMembers members ≤ bound := by
    induction h with
    | nil => exact ⟨rfl, fun bound => by simp [readableMembers, depthMembers]⟩
    | @cons member other members others hfirst hrest ih =>
        obtain ⟨name, value⟩ := member
        obtain ⟨_, other⟩ := other
        obtain ⟨rfl, hvalue⟩ := hfirst
        constructor
        · rw [rereadMembers?, hvalue.text, Option.bind_some, ih.1, Option.map_some]
        · intro bound
          rw [readableMembers, Bool.and_eq_true, hvalue.readable, ih.2, depthMembers, Nat.max_le]
  constructor
  · rw [reread?, hmembers.1, Option.map_some]
  · intro bound
    rw [readable, Bool.and_eq_true, decide_eq_true_eq, hmembers.2, depth]
    omega

end Json

end FormDesigner
