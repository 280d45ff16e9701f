import TagAlias.Data.Json
import TagAlias.Failure
import TagAlias.Files.Basic
import TagAlias.Message.Packaged
/-!
# Catalogs of message texts

A catalog has roots, the earlier ones stronger.  A root holds a directory for a language, and in it files of JSON tables
from addresses to texts, of which the last in order of names is the strongest.  A file that cannot be read as JSON does
not count; one that holds no table spoils its language.  A language is read once and then kept.
-/
namespace TagAlias

/-- Where texts of messages are kept. -/
inductive CatalogRoot where
  | directory (p : Path)
  | packaged
  deriving DecidableEq, Repr

abbrev Texts := List (Str × Str)

structure Catalog where
  roots : List CatalogRoot
  defaultLanguage : Str
  /-- The language that is asked for where no other is. -/
  language : Option Str
  /-- The languages that have been read. -/
  known : List (Str × Texts)

namespace Catalog

def of (roots : List CatalogRoot) (language : Option Str) : Catalog := ⟨roots, Packaged.language, language, []⟩

/-- The texts that a file holds: nothing if it does not count, an error if it is no table. -/
def textsOf (content : Bytes) : Except Refusal Texts :=
  match Utf8.decode content with
  | .error _ => .ok []
  | .ok cs =>
    match Json.read cs with
    | none => .ok []
    | some (.table es) => .ok (es.map (fun e => (e.1, e.2.display)))
    | some _ => .error .noSuchPart

def isCatalogFile (name : String) : Bool := ".json".toList.isSuffixOf name.toList

/-- The directory of a language.  None has a name that is not made of characters. -/
def languageDir (p : Path) (language : Str) : Option Path := (Str.toString? language).map (fun l => p ++ Path.ofString l)

def rootTexts (fs : Files) (language : Str) : CatalogRoot → Except Refusal Texts
  | .packaged => .ok (if language == Packaged.language then Packaged.templates else [])
  | .directory p =>
    match languageDir p language with
    | none => .ok []
    | some dir =>
      if !fs.isDirectory dir then .ok []
      else
        ((fs.list dir).filter isCatalogFile).foldlM (fun known name =>
          match fs.read (dir.child name) with
          | .ok content => (textsOf content).map (· ++ known)
          | .error _ => .ok known) []

/-- The texts of a language in all roots, the strongest first.  The weakest root is read first. -/
def load (c : Catalog) (fs : Files) (language : Str) : Except Refusal Texts :=
  c.roots.reverse.foldlM (fun known r => (rootTexts fs language r).map (· ++ known)) []

/-- The texts of a language, read if they are not kept yet. -/
def texts (c : Catalog) (fs : Files) (language : Str) : Except Refusal (Texts × Catalog) :=
  match c.known.lookup language with
  | some ts => .ok (ts, c)
  | none => (c.load fs language).map (fun ts => (ts, { c with known := (language, ts) :: c.known }))

def target (c : Catalog) (language : Option Str) : Str :=
  match language with
  | some l => if l.isEmpty then c.language.getD c.defaultLanguage else l
  | none => c.language.getD c.defaultLanguage

/-- The text of an address: in the language, else in the default language, else the address itself. -/
def get (c : Catalog) (fs : Files) (id : Str) (language : Option Str) : Catalog × Except Refusal Str :=
  let l := c.target language
  match c.texts fs l with
  | .error e => (c, .error e)
  | .ok (ts, c) =>
    match ts.lookup id with
    | some t => (c, .ok t)
    | none =>
      if l == c.defaultLanguage then (c, .ok id)
      else
        match c.texts fs c.defaultLanguage with
        | .error e => (c, .error e)
        | .ok (ts, c) => (c, .ok ((ts.lookup id).getD id))

end Catalog

end TagAlias
