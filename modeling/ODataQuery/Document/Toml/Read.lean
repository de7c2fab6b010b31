import ODataQuery.Document.Toml.Table
import ODataQuery.Document.Toml.Value

namespace ODataQuery.Toml

/-- Blanks, newlines and comments between the items of an array. -/
def skipLines : Nat → List Char → Option (List Char)
  | 0, _ => none
  | fuel + 1, cs =>
    match skipComment (skipBlanks cs) with
    | '\n' :: rest => skipLines fuel rest
    | rest => if (skipBlanks cs).head? == some '#' then none else some rest

mutual

/-- A value. Each step takes a character, so `fuel` above the text's length never
runs out. -/
def value (fuel depth : Nat) (cs : List Char) : Option (Tree × List Char) :=
  match fuel with
  | 0 => none
  | fuel + 1 =>
    match cs with
    | [] => none
    | c :: rest =>
      if c = '"' ∨ c = '\'' then (string? cs).map fun r => (.text (String.ofList r.1), r.2)
      else if c = '[' then
        if depth < nestingLimit then do
          let (ts, rest) ← items fuel (depth + 1) rest
          return (.list ts, rest)
        else none
      else if c = '{' then
        if depth < nestingLimit then do
          let (entries, rest) ←
            match skipBlanks rest with
            | '}' :: rest => some ([], rest)
            | rest => inlineTable fuel (depth + 1) [] rest
          return (.record (entryTrees entries), rest)
        else none
      else scalar cs

/-- The items of an array through its closing bracket; a comma may end them. -/
def items (fuel depth : Nat) (cs : List Char) : Option (List Tree × List Char) :=
  match fuel with
  | 0 => none
  | fuel + 1 => do
    match ← skipLines fuel cs with
    | ']' :: rest => return ([], rest)
    | cs =>
      let (t, rest) ← value fuel depth cs
      match ← skipLines fuel rest with
      | ',' :: rest =>
        let (ts, rest) ← items fuel depth rest
        return (t :: ts, rest)
      | ']' :: rest => return ([t], rest)
      | _ => none

/-- The pairs of an inline table through its closing brace, on one line. -/
def inlineTable (fuel depth : Nat) (entries : Entries) (cs : List Char) :
    Option (Entries × List Char) :=
  match fuel with
  | 0 => none
  | fuel + 1 => do
    let (key, cs) ← key? cs
    match cs with
    | '=' :: cs =>
      let (t, rest) ← value fuel depth (skipBlanks cs)
      let entries ← Pair.setIn entries ⟨key, t⟩
      match skipBlanks rest with
      | ',' :: rest => inlineTable fuel depth entries rest
      | '}' :: rest => return (entries, rest)
      | _ => none
    | _ => none

end

inductive Line where
  | empty
  | pair (p : Pair)
  | header (h : Header)

/-- One line, up to its newline or comment. -/
def line? (fuel : Nat) (cs : List Char) : Option (Line × List Char) :=
  match skipBlanks cs with
  | [] => some (.empty, [])
  | '[' :: '[' :: rest => do
    let (key, rest) ← key? rest
    match rest with
    | ']' :: ']' :: rest => return (.header ⟨key, true⟩, rest)
    | _ => none
  | '[' :: rest => do
    let (key, rest) ← key? rest
    match rest with
    | ']' :: rest => return (.header ⟨key, false⟩, rest)
    | _ => none
  | c :: rest =>
    if c = '\n' ∨ c = '#' then some (.empty, c :: rest)
    else do
      let (key, rest) ← key? (c :: rest)
      match rest with
      | '=' :: rest =>
        let (t, rest) ← value fuel 0 (skipBlanks rest)
        return (.pair ⟨key, t⟩, rest)
      | _ => none

/-- The lines of a text, each ended by a newline or the end of the text. -/
def lines : Nat → List Char → Option (List Line)
  | 0, _ => none
  | fuel + 1, cs => do
    let (line, rest) ← line? fuel cs
    match skipComment (skipBlanks rest) with
    | [] => return [line]
    | '\n' :: rest => return line :: (← lines fuel rest)
    | _ => none

/-- The pairs above the first header, and each header with its pairs. -/
def sections : List Line → List Pair × List (Header × List Pair)
  | [] => ([], [])
  | .empty :: lines => sections lines
  | .pair p :: lines => let (pairs, rest) := sections lines; (p :: pairs, rest)
  | .header h :: lines => let (pairs, rest) := sections lines; ([], (h, pairs) :: rest)

/-- Drop the carriage return of every line end. -/
def joinLineEnds : List Char → List Char
  | '\r' :: '\n' :: rest => '\n' :: joinLineEnds rest
  | c :: rest => c :: joinLineEnds rest
  | [] => []

/-- The tree of a document, after an optional byte order mark. -/
def read? (s : String) : Option Tree := do
  let cs :=
    match s.toList with
    | '\uFEFF' :: cs => joinLineEnds cs
    | cs => joinLineEnds cs
  let (pairs, sections) := sections (← lines (cs.length + 1) cs)
  let document ← pairs.foldlM Pair.setIn []
  let document ← sections.foldlM (fun document s => s.1.addTo s.2 document) document
  return .record (entryTrees document)

end ODataQuery.Toml
