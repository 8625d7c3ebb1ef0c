import FlowEngine.Rehearsal.Basic
/-! Texts of a rehearsal as they are told: sessions that were given an identifier go by their alias,
and what was measured or read from the clock is left out. -/

namespace FlowEngine.Rehearsal

def substitute (old new : List Char) : Nat → List Char → List Char
  | 0, cs => cs
  | _ + 1, [] => []
  | fuel + 1, c :: rest =>
    if !old.isEmpty && old.isPrefixOf (c :: rest) then
      new ++ substitute old new fuel ((c :: rest).drop old.length)
    else c :: substitute old new fuel rest

def isDigit (c : Char) : Bool := '0' ≤ c && c ≤ '9'

/-- Replaces the numeral after each occurrence of a lead. The function is given the numeral and what
follows, and gives what stands for the numeral. -/
def replaceNumerals (lead : List Char) (word : List Char → List Char → List Char) :
    Nat → List Char → List Char
  | 0, cs => cs
  | _ + 1, [] => []
  | fuel + 1, c :: rest =>
    if lead.isPrefixOf (c :: rest) then
      let after := (c :: rest).drop lead.length
      let numeral := after.takeWhile fun c => isDigit c || c = '-'
      let rest := after.drop numeral.length
      lead ++ word numeral rest ++ replaceNumerals lead word fuel rest
    else c :: replaceNumerals lead word fuel rest

def hideDurations (s : String) : String :=
  let cs := s.toList
  String.ofList (replaceNumerals " timed out after ".toList
    (fun numeral rest =>
      if !numeral.isEmpty && numeral.all isDigit && "ms".toList.isPrefixOf rest then "<n>".toList
      else numeral)
    (cs.length + 1) cs)

namespace World

/-- The identifiers that sessions were given, each with the alias. -/
def givenIds (w : World) : List (String × String) :=
  w.aliases.filterMap fun (label, h) =>
    let id := (w.engine.session h).id
    if id = label then none else some (id, label)

def tell (w : World) (s : String) : String :=
  hideDurations (String.ofList (w.givenIds.foldl (fun cs (id, label) =>
    substitute id.toList label.toList (cs.length + 1) cs) s.toList))

/-- The message of a journal record; readings of the clock are left out. -/
def tellMessage (w : World) (s : String) : String :=
  let cs := s.toList
  w.tell (String.ofList (replaceNumerals "last_updated_at=".toList
    (fun numeral _ =>
      match (String.ofList numeral).toInt? with
      | some t => if w.isReading t then "now".toList else numeral
      | none => numeral)
    (cs.length + 1) cs))

end World

end FlowEngine.Rehearsal
