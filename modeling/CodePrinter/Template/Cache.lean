import CodePrinter.Template.Part

/-! A bounded store of split templates. The entry that was made first is dropped first. -/
namespace CodePrinter.Template

structure Cache where
  /-- Texts and their parts, the oldest first. -/
  entries : List (String × List Part) := []
  /-- How many texts were split because they were not in the store. -/
  misses : Nat := 0

namespace Cache

def limit : Nat := 512

def size (cache : Cache) : Nat := cache.entries.length

def find? (cache : Cache) (text : String) : Option (List Part) := cache.entries.lookup text

/-- Adds an entry; a full store drops its oldest one. -/
def insert (cache : Cache) (text : String) (parts : List Part) : Cache :=
  { entries := (if limit ≤ cache.size then cache.entries.drop 1 else cache.entries) ++
      [(text, parts)]
    misses := cache.misses + 1 }

/-- The parts of a text, from the store if they are there. -/
def split (cache : Cache) (text : String) : List Part × Cache :=
  match cache.find? text with
  | some parts => (parts, cache)
  | none => (Template.split text, cache.insert text (Template.split text))

/-- An empty store. -/
def clear (cache : Cache) : Cache := { cache with entries := [] }

/-- Numbers the entries in the order in which they were made, over the life of the store. -/
def serial? (cache : Cache) (text : String) : Option Nat :=
  (cache.entries.findIdx? (·.1 = text)).map (· + (cache.misses - cache.size))

end Cache

end CodePrinter.Template
