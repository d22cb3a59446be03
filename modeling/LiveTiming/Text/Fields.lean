namespace LiveTiming.Text

/-- The stretches of a list between the members that are separators, from first to
last. There is one more of them than there are separators. -/
def splitAt {α : Type} (separates : α → Bool) : List α → List (List α)
  | [] => [[]]
  | a :: rest =>
    match splitAt separates rest with
    | [] => [[a]]
    | stretch :: later =>
      if separates a then [] :: stretch :: later else (a :: stretch) :: later

/-- The fields of a record line. -/
def fields (s : String) : List String :=
  (splitAt (· == '|') s.toList).map String.ofList

/-- The record line of the given fields. -/
def record (fields : List String) : String :=
  String.intercalate "|" fields

end LiveTiming.Text
