namespace ReportExchange.Index

-- Puts an entry in its place; an entry of the same key is replaced.
def insert {α : Type} (key : String) (value : α) : List (String × α) → List (String × α)
  | [] => [(key, value)]
  | e :: es =>
    if key < e.1 then (key, value) :: e :: es
    else if key = e.1 then (key, value) :: es
    else e :: insert key value es

-- Of entries with one key the last stays.
def ofList {α : Type} (entries : List (String × α)) : List (String × α) :=
  entries.foldl (fun es e => insert e.1 e.2 es) []

def find? {α : Type} (key : String) (entries : List (String × α)) : Option α :=
  (entries.find? (·.1 = key)).map (·.2)

theorem find?_cons {α : Type} (key : String) (e : String × α) (es : List (String × α)) :
    find? key (e :: es) = if e.1 = key then some e.2 else find? key es := by
  simp only [find?, List.find?_cons]
  by_cases h : e.1 = key <;> simp [h]

theorem find?_insert {α : Type} (k key : String) (value : α) (es : List (String × α)) :
    find? k (insert key value es) = if key = k then some value else find? k es := by
  induction es with
  | nil => simp [insert, find?_cons]
  | cons e es ih =>
    simp only [insert]
    split
    · simp [find?_cons]
    · split
      · next h =>
        by_cases hk : key = k <;> simp [find?_cons, hk, ← h]
      · next h =>
        rw [find?_cons, ih, find?_cons]
        by_cases hk : key = k
        · subst hk
          simp [Ne.symm h]
        · simp [hk]

end ReportExchange.Index
