import FleetOrchestrator.Scheduler.Operations

namespace FleetOrchestrator.Scheduler.SkillLoader

open Core

/-- Unicode `White_Space`. -/
def isWhiteSpace (c : Char) : Bool :=
  let n := c.toNat
  (9 ≤ n && n ≤ 13) || n = 0x20 || n = 0x85 || n = 0xA0 || n = 0x1680 ||
    (0x2000 ≤ n && n ≤ 0x200A) || n = 0x2028 || n = 0x2029 || n = 0x202F || n = 0x205F ||
    n = 0x3000

/-- What follows the first occurrence of a pattern. -/
def afterFirst (pattern : List Char) : List Char → Option (List Char)
  | [] => if pattern.isEmpty then some [] else none
  | c :: cs =>
    if pattern.isPrefixOf (c :: cs) then some ((c :: cs).drop pattern.length)
    else afterFirst pattern cs

def stripFrontmatter (content : String) : String :=
  match content.toList with
  | '-' :: '-' :: '-' :: rest =>
    match afterFirst ['\n', '-', '-', '-'] rest with
    | some body => String.ofList (body.dropWhile isWhiteSpace)
    | none => content
  | _ => content

def hasParentStep : List Char → Bool
  | '.' :: '.' :: _ => true
  | _ :: cs => hasParentStep cs
  | [] => false

def traversesPath (name : String) : Bool :=
  let chars := name.toList
  chars.contains '/' || chars.contains '\\' || hasParentStep chars

def loadSkill (name : String) : M (Option String) :=
  if traversesPath name then return none
  else do
    let file ← call (.readSkill (name ++ ".md"))
    match file with
    | .text content => return some (stripFrontmatter content)
    | .unreadable => return none
    | .notFound =>
      let txt ← call (.readSkill (name ++ ".txt"))
      match txt with
      | .text content => return some (stripFrontmatter content)
      | .notFound | .unreadable => return none

structure SkillInjection where
  prompt : String
  missing : List String
  loaded : List SkillSnapshotEntry

def SkillInjection.isComplete (i : SkillInjection) : Bool := i.missing.isEmpty

def skillBlock (name body : String) : String := "<SKILL: " ++ name ++ ">\n" ++ body ++ "\n</SKILL>"

structure Gathered where
  blocks : List String := []
  missing : List String := []
  loaded : List SkillSnapshotEntry := []

def Gathered.add (sha256 : String → String) (g : Gathered) (name : String) :
    Option String → Gathered
  | some body => { g with
      blocks := g.blocks ++ [skillBlock name body]
      loaded := g.loaded ++ [⟨name, sha256 body, body.utf8ByteSize⟩] }
  | none => { g with missing := g.missing ++ [name] }

def gather (sha256 : String → String) : List String → Gathered → M Gathered
  | [], g => return g
  | name :: names, g => do
    let body ← loadSkill name
    gather sha256 names (g.add sha256 name body)

def injectSkills (sha256 : String → String) (prompt : String) (skillsRequired : List String) :
    M SkillInjection := do
  let g ← gather sha256 skillsRequired {}
  let full := if g.blocks.isEmpty then prompt
    else "\n\n".intercalate g.blocks ++ "\n\n<TASK>\n" ++ prompt ++ "\n</TASK>"
  return ⟨full, g.missing, g.loaded⟩

end FleetOrchestrator.Scheduler.SkillLoader
