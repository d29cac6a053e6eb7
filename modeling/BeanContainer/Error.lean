import BeanContainer.Instance
import BeanContainer.TypeInfo

/-!
What can go wrong in a container, by cause, and the text of each cause.

A `BeanError` has one of eight kinds. Four of them carry a reason of their own;
creation and destruction errors wrap whatever a collaborator failed with, which
is a text or another `BeanError`, so an error may hold a chain of causes.
-/

namespace BeanContainer

/-- Why the definitions refuse a change or cannot be merged. -/
inductive StoreFault where
  /-- A reason in words. -/
  | other (words : String)
  | blankName
  | blankScope
  | blankParent
  | blankDependency
  /-- The name has a definition, with the given type, and may not be redefined. -/
  | redefined (type : Option TypeInfo)
  /-- The name is an alias of `canonical`. -/
  | nameIsAlias (canonical : String)
  /-- The alias is the name of a definition. -/
  | aliasIsDefinition (name altName : String)
  /-- Parents lead back to where they started. -/
  | parentCycle (path : List String)
  /-- The parent has the definition's own name, and there is no parent factory to ask. -/
  | selfParent (parent : String)
  /-- Nothing defines the parent. -/
  | parentMissing (parent : String)
  /-- Neither this factory nor its ancestors define the parent. -/
  | parentMissingAbove (parent : String)
deriving DecidableEq, Repr

/-- Why a call does not fit the state it meets. -/
inductive StateFault where
  /-- A reason in words. -/
  | other (words : String)
  /-- The alias stands for another name already. -/
  | aliasTaken (name altName registered : String)
  /-- The name is itself an alias of the alias. -/
  | aliasCircle (name altName : String)
  | aliasUnknown (altName : String)
  /-- A resolved alias meets an entry that leads elsewhere. -/
  | aliasConflict (resolved altName existing wanted : String)
  | singletonExists (name : String) (existing : Instance)
  /-- The configuration is frozen and refuses changes. -/
  | frozen (name : String)
  /-- A factory may not be its own ancestor. -/
  | parentLoop
  | parentSet
  /-- A bean's scope is not registered. -/
  | beanScopeUnknown (bean scope : String)
  | scopeUnknown (scope : String)
  /-- The bean is not of the requested type. -/
  | wrongType (name type : String)
deriving DecidableEq, Repr

/-- Why an argument is refused. -/
inductive ArgumentFault where
  /-- A reason in words. -/
  | other (words : String)
  | blankAlias
  | blankSingleton
  | blankScope
  | reservedScope (name : String)
  /-- The bean's scope is one of the two built-in ones. -/
  | notCustomScoped (bean scope : String)
deriving DecidableEq, Repr

/-- Why a bean was not created, when no other error is behind it. -/
inductive CreationFault where
  /-- A reason in words. -/
  | other (words : String)
  | abstractDefinition
  | dependencyCycle (bean dependency : String)
  | constructorMissing
deriving DecidableEq, Repr

/-- An error of a container. -/
inductive BeanError where
  | noSuchDefinition (name : String)
  | definitionStore (name : String) (fault : StoreFault)
  | illegalState (fault : StateFault)
  | illegalArgument (fault : ArgumentFault)
  | creation (name : String) (fault : CreationFault)
  /-- A creation that failed because of another error. -/
  | creationBy (name : String) (cause : BeanError)
  | currentlyInCreation (name : String)
  | creationNotAllowed (name : String)
  | destruction (name : String) (text : String)
  /-- A destruction that failed because of another error. -/
  | destructionBy (name : String) (cause : BeanError)
deriving DecidableEq, Repr

/-- What a collaborator fails with. -/
inductive Failure where
  | text (words : String)
  | error (cause : BeanError)
deriving DecidableEq, Repr

/-! ## Texts -/

/-- The reason in words. -/
def StoreFault.message : StoreFault → String
  | other words => words
  | blankName => "Bean 名称不能为空"
  | blankScope => "作用域不能为空白字符串"
  | blankParent => "父定义名称不能为空"
  | blankDependency => "depends-on 中包含空的 Bean 名称"
  | redefined type => "不允许覆盖已存在的定义 " ++ Text.optional (type.map TypeInfo.written)
  | nameIsAlias canonical => "该名称已注册为 '" ++ canonical ++ "' 的别名"
  | aliasIsDefinition name altName =>
    "无法为 '" ++ name ++ "' 注册别名 '" ++ altName ++ "': 该名称已是 Bean 定义名称"
  | parentCycle path => "父定义存在循环: " ++ " -> ".intercalate path
  | selfParent parent => "父定义名称 '" ++ parent ++ "' 与 Bean 名称相同，但没有父工厂"
  | parentMissing parent => "找不到父定义 '" ++ parent ++ "'"
  | parentMissingAbove parent => "父工厂中也找不到父定义 '" ++ parent ++ "'"

/-- The reason in words. -/
def StateFault.message : StateFault → String
  | other words => words
  | aliasTaken name altName registered =>
    "无法为名称 '" ++ name ++ "' 注册别名 '" ++ altName ++ "': 该别名已注册给名称 '" ++ registered ++ "'"
  | aliasCircle name altName =>
    "无法为名称 '" ++ name ++ "' 注册别名 '" ++ altName ++ "': 检测到循环引用，'" ++ name ++
      "' 已经是 '" ++ altName ++ "' 的（传递）别名"
  | aliasUnknown altName => "没有注册别名 '" ++ altName ++ "'"
  | aliasConflict resolved altName existing wanted =>
    "解析后的别名 '" ++ resolved ++ "'（原别名 '" ++ altName ++ "'）已注册给名称 '" ++ existing ++
      "'，无法改指向 '" ++ wanted ++ "'"
  | singletonExists name existing =>
    "无法注册单例 '" ++ name ++ "': 已存在实例 " ++ existing.written
  | frozen name => "工厂配置已冻结，不能修改 Bean 定义 '" ++ name ++ "'"
  | parentLoop => "不能把工厂自身或其后代设置为父工厂"
  | parentSet => "父工厂已经设置，不能再次设置"
  | beanScopeUnknown bean scope => "Bean '" ++ bean ++ "' 使用的作用域 '" ++ scope ++ "' 没有注册"
  | scopeUnknown scope => "作用域 '" ++ scope ++ "' 没有注册"
  | wrongType name type => "Bean '" ++ name ++ "' 不是所需类型 " ++ type

/-- The reason in words. -/
def ArgumentFault.message : ArgumentFault → String
  | other words => words
  | blankAlias => "名称和别名都不能为空"
  | blankSingleton => "单例名称不能为空"
  | blankScope => "作用域名称不能为空"
  | reservedScope name => "不能替换内置作用域 '" ++ name ++ "'"
  | notCustomScoped bean scope => "Bean '" ++ bean ++ "' 的作用域为 '" ++ scope ++ "'，不是自定义作用域"

/-- The reason in words. -/
def CreationFault.message : CreationFault → String
  | other words => words
  | abstractDefinition => "抽象定义只能作为父定义使用，不能实例化"
  | dependencyCycle bean dependency =>
    "'" ++ bean ++ "' 与 '" ++ dependency ++ "' 之间存在循环 depends-on 关系"
  | constructorMissing => "工厂没有配置 BeanConstructor"

namespace BeanError

/-- The text of an error; a wrapping error ends with the text of what it wraps. -/
def message : BeanError → String
  | noSuchDefinition name => "没有名为 '" ++ name ++ "' 的 Bean 定义"
  | definitionStore name fault => "Bean 定义存储失败: " ++ name ++ ", 原因: " ++ fault.message
  | illegalState fault => "非法状态: " ++ fault.message
  | illegalArgument fault => "非法参数: " ++ fault.message
  | creation name fault => "Bean 创建失败: " ++ name ++ ", 原因: " ++ fault.message
  | creationBy name cause => "Bean 创建失败: " ++ name ++ ", 原因: " ++ cause.message
  | currentlyInCreation name => "Bean '" ++ name ++ "' 正在创建中: 是否存在无法解析的循环引用?"
  | creationNotAllowed name => "单例正在销毁，不允许创建 Bean: " ++ name
  | destruction name text => "Bean 销毁失败: " ++ name ++ ", 原因: " ++ text
  | destructionBy name cause => "Bean 销毁失败: " ++ name ++ ", 原因: " ++ cause.message

/-- Whether an error says that a bean could not be created, circular references included. -/
def isCreationError : BeanError → Bool
  | creation .. | creationBy .. | currentlyInCreation .. => true
  | _ => false

/-- The texts of the causes behind an error, nearest first. Only creation and destruction
errors have a cause. -/
def causeMessages : BeanError → List String
  | creation _ fault => [fault.message]
  | creationBy _ cause => cause.message :: cause.causeMessages
  | destruction _ text => [text]
  | destructionBy _ cause => cause.message :: cause.causeMessages
  | _ => []

/-- The creation error of a bean whose collaborator failed. -/
def creationOf (name : String) : Failure → BeanError
  | .text text => creation name (.other text)
  | .error cause => creationBy name cause

/-- The destruction error of a bean whose collaborator failed. -/
def destructionOf (name : String) : Failure → BeanError
  | .text text => destruction name text
  | .error cause => destructionBy name cause

end BeanError

/-- The text of a collaborator's failure. -/
def Failure.message : Failure → String
  | text words => words
  | error cause => cause.message

/-! ## Errors around a container -/

/-- Why the settings of an application could not be read. -/
inductive ConfigError where
  /-- The file does not exist. -/
  | fileNotFound (path : String)
  /-- A source cannot be read or holds a value of the wrong sort. -/
  | unreadable
  /-- The settings were read but are not acceptable. -/
  | invalid (text : String)
deriving DecidableEq, Repr

/-- The text of a settings error; what exactly was unreadable is not told. -/
def ConfigError.message : ConfigError → String
  | fileNotFound path => "配置文件不存在: " ++ path
  | unreadable => "配置解析失败"
  | invalid text => "配置验证失败: " ++ text

/-- Why starting or stopping an application failed. -/
inductive InfrastructureError where
  | config (cause : ConfigError)
  | bean (cause : BeanError)
  | bootstrapFailed (text : String)
  | shutdownFailed (failures : Nat)
deriving DecidableEq, Repr

/-- The text of an infrastructure error. -/
def InfrastructureError.message : InfrastructureError → String
  | config cause => "配置错误: " ++ cause.message
  | bean cause => "Bean 工厂错误: " ++ cause.message
  | bootstrapFailed text => "基础设施启动失败: " ++ text
  | shutdownFailed failures => "基础设施关闭失败: " ++ toString failures ++ " 个 Bean 销毁失败"

end BeanContainer
