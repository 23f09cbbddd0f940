/-! # Tables in order of first insertion

A table is a list of pairs.  Writing a key that is present replaces its value
where it stands; a new key goes to the end. -/
set_option autoImplicit false

namespace XmlHarvest.Ordered

variable {α β : Type}

def find? (same : α → Bool) : List (α × β) → Option β
  | [] => none
  | (k, v) :: rest => if same k then some v else find? same rest

/-- Writes `v` under `k`.  The key that is already present keeps its
spelling. -/
def putBy (same : α → α → Bool) (k : α) (v : β) : List (α × β) → List (α × β)
  | [] => [(k, v)]
  | (k', v') :: rest => if same k' k then (k', v) :: rest else (k', v') :: putBy same k v rest

def put [BEq α] (k : α) (v : β) (entries : List (α × β)) : List (α × β) :=
  putBy (· == ·) k v entries

def get? [BEq α] (entries : List (α × β)) (k : α) : Option β :=
  find? (· == k) entries

def has [BEq α] (entries : List (α × β)) (k : α) : Bool :=
  (get? entries k).isSome

def keys (entries : List (α × β)) : List α := entries.map (·.1)

def ofListBy (same : α → α → Bool) (entries : List (α × β)) : List (α × β) :=
  entries.foldl (fun table (k, v) => putBy same k v table) []

def ofList [BEq α] (entries : List (α × β)) : List (α × β) :=
  ofListBy (· == ·) entries

end XmlHarvest.Ordered
