import ReportExchange.Envelope.Field

namespace ReportExchange

structure Operation where
  opType         : OperationType
  dataCollection : Option String := none
  comment        : Option String := none
deriving DecidableEq, Repr

namespace Operation

-- The fields in the order in which they are written; absent ones are left out.
def fields (o : Operation) : List (OperationField × String) :=
  [(.opType, o.opType.name)] ++
  (o.dataCollection.map fun code => (OperationField.dataCollection, code)).toList ++
  (o.comment.map fun comment => (OperationField.comment, comment)).toList

end Operation

end ReportExchange
